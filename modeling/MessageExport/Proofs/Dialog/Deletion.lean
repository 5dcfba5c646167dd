import MessageExport.Proofs.Dialog.Run
/-!
# MessageExport.Proofs.Dialog.Deletion

Steps that leave **no trace**.

A refused step and a download leave the dialog as it is, so they can be deleted from
a run, one or many, without a difference to any other step. All that goes missing is
what the deleted steps themselves put on record: nothing for a refused one, one
request for a download.
-/

namespace MessageExport

/-! ### Lists without some of their entries -/

section

variable {α : Type}

end

namespace Dialog

/-! ### Deleting idle steps -/

/-- The deleted positions of a run hold nothing but refused steps and downloads. -/
def DeletesIdle (dialog : Dialog) (steps : List Step) (deleted : Nat → Bool) : Prop :=
  ∀ i step reply, deleted i = true → steps[i]? = some step →
    (dialog.run steps)[i]? = some reply →
    (∃ fault, reply.result = .error fault) ∨ ∃ view, step = .download view

/-- The later positions are judged by the run from the next state. -/
theorem DeletesIdle.tail {dialog : Dialog} {step : Step} {steps : List Step}
    {deleted : Nat → Bool} (h : dialog.DeletesIdle (step :: steps) deleted) :
    (dialog.step step).dialog.DeletesIdle steps fun i => deleted (i + 1) := by
  intro i later reply hdeleted hstep hreply
  exact h (i + 1) later reply hdeleted hstep hreply

end Dialog

end MessageExport
