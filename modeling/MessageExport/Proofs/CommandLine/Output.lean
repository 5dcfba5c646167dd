import MessageExport.CommandLine.Run
import MessageExport.Proofs.Json.Layout
import MessageExport.Proofs.Wire.RoundTrip
/-!
# MessageExport.Proofs.CommandLine.Output

The **two ways of printing** requests carry the same requests.

What a run records does not depend on how it prints (`respond_of_not_list`), so this is
about the printer. Requests are printed as one JSON text in a layout, with a line end after
it, and both layouts put nothing but blanks between the tokens: the text decodes as the
requests, and without the blanks it is the compact text. All control characters of names
and query texts are escaped, so the compact text has no line end but the last.
-/

namespace MessageExport.CommandLine

open Json (Layout Tree)

/-! ### What is recorded -/

/-- The requests that a run which does not list records. -/
def recorded (arguments : Arguments) (settings : Settings) (files : FileSystem)
    (input : List UInt8) : Except RunFault (List Request) := do
  let document ← (loadDocument arguments files input).mapError .input
  let dialog := Dialog.ofView document.view arguments.fixedWidget settings.defaultFields
  let dialog ← (prepare arguments dialog).mapError .exporting
  let started ← (dialog.download document.view).mapError .exporting
  .ok (recorder.take started.request [])

/-- A run that does not list prints what it records. -/
theorem respond_of_not_list {arguments : Arguments} (hlist : arguments.list = false)
    (settings : Settings) (files : FileSystem) (input : List UInt8) :
    respond arguments settings files input =
      (recorded arguments settings files input).map (requestsText settings.pretty) := by
  simp only [respond, recorded, report, hlist, Bool.false_eq_true, if_false]
  cases loadDocument arguments files input with
  | error fault => rfl
  | ok document =>
      simp only [Except.mapError, bind, Except.bind]
      cases prepare arguments
          (Dialog.ofView document.view arguments.fixedWidget settings.defaultFields) with
      | error fault => rfl
      | ok dialog =>
          simp only
          cases dialog.download document.view <;> rfl

/-- A call that does not list and ends well prints what it records. -/
theorem output_of_not_list {args : List String} {around : Surroundings}
    {arguments : Arguments} (hargs : Arguments.ofList args = .ok arguments)
    (hlist : arguments.list = false) (hexit : (call args around).exitCode = 0) :
    ∃ settings files requests,
      Settings.resolve around.environment around.files arguments.config
        (if arguments.pretty then some true else none) = .ok settings ∧
      startRun arguments settings around = (files, .started) ∧
      recorded arguments settings files around.input = .ok requests ∧
      (call args around).output = requestsText settings.pretty requests := by
  have hcall : call args around = run arguments around := by rw [call, hargs]
  rw [hcall, run] at hexit ⊢
  cases hsettings : Settings.resolve around.environment around.files arguments.config
      (if arguments.pretty then some true else none) with
  | error fault =>
      rw [hsettings] at hexit
      cases hexit
  | ok settings =>
      rw [hsettings] at hexit
      simp only at hexit ⊢
      rcases hlog : startRun arguments settings around with ⟨files, start⟩
      rw [hlog] at hexit
      cases start with
      | started =>
          simp only [respond_of_not_list hlist] at hexit ⊢
          cases hrecorded : recorded arguments settings files around.input with
          | error fault =>
              rw [hrecorded] at hexit
              cases hexit
          | ok requests => exact ⟨settings, files, requests, rfl, hlog, hrecorded, rfl⟩
      | refused fault => cases hexit
      | aborted => cases hexit

/-! ### How it is printed -/

/-- The tree that requests are printed as. -/
abbrev requestsTree (requests : List Request) : Tree :=
  Wire.listTree Request.toJson requests

theorem natural_requestsTree (requests : List Request) : (requestsTree requests).Natural :=
  Wire.natural_toJson (.list (.tagged .request)) requests

/-- Requests are decoded from their text in any layout, with blanks after it as well. -/
theorem decodeText_requests {layout : Layout} (blanks : layout.Blanks) (requests : List Request)
    (after : List Json.Blank) :
    Wire.decodeText (.list (.tagged .request))
      ((requestsTree requests).render layout ++
        String.ofList (Json.blanksText after)).toList = .ok requests := by
  have hdepth : (requestsTree requests).depth ≤ Json.maxDepth :=
    Nat.le_trans (Wire.depth_listTree (Wire.depth_tagged .request) requests) (by decide)
  exact @Wire.decodeText_render layout blanks (.list (.tagged .request)) requests hdepth after

/-- The line end after a text, as blanks of JSON. -/
def lineEnd : List Json.Blank :=
  Layout.prettyBlanks.lineBreak 0

/-- **Compact and pretty output carry the same requests**, whatever names and texts are in
them. Each decodes as the requests, with the line end after it or without; without the
blanks outside strings, pretty output is the compact output; and this has no control
characters but the line end after it. What a run records does not depend on how it prints,
so a call that ends well prints what it would have printed in the other way as well, and
without `pretty` it prints one line. -/
theorem compact_and_pretty_output :
    (∀ requests : List Request,
      let tree := Wire.listTree Request.toJson requests
      requestsText false requests = tree.compact ++ "\n" ∧
        requestsText true requests = tree.pretty ++ "\n" ∧
        Wire.decodeText (.list (.tagged .request)) tree.compact.toList = .ok requests ∧
        Wire.decodeText (.list (.tagged .request)) tree.pretty.toList = .ok requests ∧
        (∀ pretty, Wire.decodeText (.list (.tagged .request))
          (requestsText pretty requests).toList = .ok requests) ∧
        Json.squeezed tree.pretty = tree.compact ∧
        Json.squeezed (requestsText true requests) = tree.compact ∧
        ∀ c ∈ tree.compact.toList, 0x20 ≤ c.toNat) ∧
      (∀ (arguments : Arguments) (settings : Settings) (files : FileSystem)
        (input : List UInt8), arguments.list = false → ∀ pretty,
          respond arguments { settings with pretty } files input =
            (recorded arguments settings files input).map (requestsText pretty)) ∧
      ∀ (args : List String) (around : Surroundings) (arguments : Arguments),
        Arguments.ofList args = .ok arguments → arguments.list = false →
          (call args around).exitCode = 0 →
            ∃ settings files requests,
              Settings.resolve around.environment around.files arguments.config
                (if arguments.pretty then some true else none) = .ok settings ∧
              startRun arguments settings around = (files, .started) ∧
              recorded arguments settings files around.input = .ok requests ∧
              (call args around).output = requestsText settings.pretty requests ∧
              Wire.decodeText (.list (.tagged .request)) (call args around).output.toList =
                .ok requests ∧
              (settings.pretty = false → ∃ line : String,
                (call args around).output = line ++ "\n" ∧
                  ∀ c ∈ line.toList, 0x20 ≤ c.toNat) := by
  have hbare (text : String) : text ++ String.ofList (Json.blanksText []) = text :=
    String.append_empty
  have hdecode (requests : List Request) (pretty : Bool) :
      Wire.decodeText (.list (.tagged .request)) (requestsText pretty requests).toList =
        .ok requests := by
    cases pretty with
    | false => exact decodeText_requests Layout.compactBlanks requests lineEnd
    | true => exact decodeText_requests Layout.prettyBlanks requests lineEnd
  refine ⟨?_, ?_, ?_⟩
  · intro requests tree
    have hnatural := natural_requestsTree requests
    refine ⟨rfl, rfl, ?_, ?_, hdecode requests, ?_,
      Json.squeezed_render Layout.prettyBlanks hnatural lineEnd, Json.visible_compact hnatural⟩
    · exact hbare tree.compact ▸ decodeText_requests Layout.compactBlanks requests []
    · exact hbare tree.pretty ▸ decodeText_requests Layout.prettyBlanks requests []
    · exact hbare tree.pretty ▸ Json.squeezed_render Layout.prettyBlanks hnatural []
  · intro arguments settings files input hlist pretty
    exact respond_of_not_list hlist { settings with pretty } files input
  · intro args around arguments hargs hlist hexit
    obtain ⟨settings, files, requests, hsettings, hlog, hrecorded, houtput⟩ :=
      output_of_not_list hargs hlist hexit
    refine ⟨settings, files, requests, hsettings, hlog, hrecorded, houtput, ?_, ?_⟩
    · rw [houtput, hdecode]
    · intro hpretty
      refine ⟨(requestsTree requests).compact, ?_,
        Json.visible_compact (natural_requestsTree requests)⟩
      rw [houtput, hpretty]
      rfl

end MessageExport.CommandLine
