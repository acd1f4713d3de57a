import Ze.Gr.Coverage

/-!
# What a callback may do

A callback that has started cannot be stopped, so it looks at the state of the peer when it gets the
lock. That of the restart period compares the cycle and looks for the deadline, which a session that
comes back clears; that of a family compares the cycle alone, and so may end a family of a session
that is up (`expired_after_reestablished`).
-/

namespace Ze.Gr

open Ze.Lib

variable {A F : Type}

section

variable [DecidableEq A] [DecidableEq F]

/-- No callback of a family whose timer was stopped runs while the state that armed it is there. -/
def Manager.Prompt (m : Manager A F) (op : A × Cell.Op F) : Prop :=
  match op.2 with
  | .run id _ => ((m op.1).timers id).all (fun t => t.family.isNone || !t.stopped ||
      (m op.1).state.all fun s => decide (s.cycle ≠ t.owner)) = true
  | _ => True

instance (m : Manager A F) (op : A × Cell.Op F) : Decidable (m.Prompt op) :=
  match op with
  | (a, .run id _) => inferInstanceAs (Decidable (((m a).timers id).all (fun t =>
    t.family.isNone || !t.stopped || (m a).state.all fun s => decide (s.cycle ≠ t.owner)) = true))
  | (_, .down ..) => isTrue trivial
  | (_, .complete ..) => isTrue trivial
  | (_, .reestablished ..) => isTrue trivial
  | (_, .eor _) => isTrue trivial
  | (_, .remove) => isTrue trivial
  | (_, .fire _) => isTrue trivial

end

section

variable [DecidableEq F] {c : Cell F} (id : ℕ)

end

section

variable [DecidableEq F]

end

end Ze.Gr
