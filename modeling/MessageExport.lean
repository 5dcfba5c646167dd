import MessageExport.Main
import MessageExport.Proofs.CommandLine.Listing
import MessageExport.Proofs.CommandLine.Output
import MessageExport.Proofs.CommandLine.Run
import MessageExport.Proofs.Dialog.Deletion
import MessageExport.Proofs.Dialog.History
import MessageExport.Proofs.Dialog.Labels
import MessageExport.Proofs.Dialog.Picker
import MessageExport.Proofs.Export.Recording
import MessageExport.Proofs.LogStart
import MessageExport.Proofs.Settings.Schema
import MessageExport.Proofs.View.Grammar
import MessageExport.Proofs.Wire.RoundTrip
import MessageExport.Proofs.Wire.TimeRange
