import Lapq.Semantics.Handlers
import Lapq.Runs.Gating

/-!
Requests made inside handlers. A handler that was called from `m_ehandler` loses
its closure with the first call that is accepted while it runs, and a second
request that it makes through a capture is neither accepted nor refused: it has no
defined behaviour. As long as no handler touches what it has lost, the handlers
that run make no difference to the state machine, and every request is gated.
-/

namespace Lapq

variable {ρ : Type} {ext : Externals ρ} {s s' t : Thread ρ} {es events : List Event}
  {deed : Deed} {deeds : List Deed}

/-- What the state machine sees of it. -/
def Deed.label? : Deed → Option Label
  | .call c _ => some (.call c)
  | .complete i r => some (.complete i r)
  | .use | .ret => none

/-- No handler uses a capture, or passes one to a call, after a call was accepted
while it ran from `m_ehandler`. -/
def Considerate (s : Thread ρ) : Deed → Prop
  | .call c captured => captured = true → lostClosure (s.entered c) = false
  | .use => lostClosure s.running = false
  | .complete .. | .ret => True

instance (s : Thread ρ) : (deed : Deed) → Decidable (Considerate s deed)
  | .call c captured =>
      inferInstanceAs (Decidable (captured = true → lostClosure (s.entered c) = false))
  | .use => inferInstanceAs (Decidable (lostClosure s.running = false))
  | .complete .. | .ret => inferInstanceAs (Decidable True)

namespace Thread

theorem advance_inv {label : Label} {place : Place} {running : List Running}
    (h : s.advance ext label place running = some (s', es)) :
    (AsyncConnection.machine ext).step s.world label = some (s'.world, es) ∧
      s'.running = (invoked es).map (fun id => ⟨id, place⟩) ++ running ∧ s'.defined = true := by
  obtain ⟨⟨w, emitted⟩, hstep, hpure⟩ := Option.bind_eq_some_iff.mp h
  cases hpure
  exact ⟨hstep, rfl, rfl⟩

theorem step_defined (hstep : (machine ext).step s deed = some (s', es)) : s.defined = true := by
  by_contra hlost
  simp [machine, hlost] at hstep

/-- A call whose arguments are there is one of the machine without handlers. -/
theorem step_call {c : Call} {captured : Bool} (hdefined : s.defined = true)
    (hcond : Considerate s (.call c captured)) :
    (machine ext).step s (.call c captured) = s.advance ext (.call c) .caller (s.entered c) := by
  have hkept : (captured && lostClosure (s.entered c)) = false := by
    cases captured with
    | false => rfl
    | true => exact hcond rfl
  simp only [machine, hdefined, hkept, if_true, Bool.false_eq_true, if_false]

/-- A considerate step is one of the machine without handlers, or is not seen by it. -/
theorem step_inv (hcond : Considerate s deed)
    (hstep : (machine ext).step s deed = some (s', es)) :
    s'.defined = true ∧
      match deed.label? with
      | some label => (AsyncConnection.machine ext).step s.world label = some (s'.world, es)
      | none => s'.world = s.world ∧ es = [] := by
  have hdefined := step_defined hstep
  cases deed with
  | call c captured =>
      rw [step_call hdefined hcond] at hstep
      obtain ⟨hworld, _, hdef⟩ := advance_inv hstep
      exact ⟨hdef, hworld⟩
  | complete i r =>
      simp only [machine, hdefined, if_true] at hstep
      split at hstep
      · obtain ⟨hworld, _, hdef⟩ := advance_inv hstep
        exact ⟨hdef, hworld⟩
      · cases hstep
  | use =>
      have hkept : lostClosure s.running = false := hcond
      simp only [machine, hdefined, if_true] at hstep
      split at hstep
      · cases hstep
      · rw [hkept] at hstep
        cases hstep
        exact ⟨hdefined, rfl, rfl⟩
  | ret =>
      simp only [machine, hdefined, if_true] at hstep
      split at hstep
      · cases hstep
      · cases hstep
        exact ⟨rfl, rfl, rfl⟩

/-- Seen from the state machine, a considerate run is a run without handlers. -/
theorem seen {results : ResultId → ρ}
    (hrun : (machine ext).Run Considerate (init results) deeds s events) :
    s.defined = true ∧ (AsyncConnection.machine ext).exec (World.init results)
      (deeds.filterMap Deed.label?) = some (s.world, events) := by
  induction hrun with
  | nil => exact ⟨rfl, rfl⟩
  | @snoc deeds t u events emitted deed _ hcond hstep ih =>
      obtain ⟨hdefined, hseen⟩ := step_inv hcond hstep
      refine ⟨hdefined, ?_⟩
      rw [List.filterMap_append, Machine.exec_append ih.2]
      cases hlabel : deed.label? with
      | none =>
          rw [hlabel] at hseen
          obtain ⟨hworld, rfl⟩ := hseen
          simp [hlabel, Machine.exec, hworld]
      | some label =>
          rw [hlabel] at hseen
          simp [hlabel, Machine.exec, hseen]

end Thread

/-! How a request is answered. -/

theorem Call.refused_eq {c : Call} (hc : c.isRequest = true) (state : State) :
    c.refused state = (state != .IDLE) := by
  cases c <;> first | rfl | cases hc

/-- An `exec` or `parse` call is accepted, so that a request message is written and
the closure in `m_ehandler` is replaced; a server ready for it was heard of and
nothing was closed. Or it does nothing but answer with `busy`, in place, and the
handler it was passed runs. -/
def Answered (ext : Externals ρ) (deeds : List Deed) (events : List Event) (s : Thread ρ)
    (c : Call) (captured : Bool) : Prop :=
  (∃ w msg, (Thread.machine ext).step s (.call c captured) =
      some (⟨w, s.running.map Running.overwritten, true⟩, [.write msg]) ∧ msg.isRequest = true ∧
    Granted events ∧ ∀ h lent, Deed.call (.close h) lent ∉ deeds) ∨
  (Thread.machine ext).step s (.call c captured) =
    some ({ s with running := ⟨c.handler, .caller⟩ :: s.running },
      [.handler c.handler (makeErrorCode .busy) s.world.fsm.state])

theorem Thread.answers {results : ResultId → ρ}
    (hrun : (Thread.machine ext).Run Considerate (Thread.init results) deeds s events) (c : Call)
    (captured : Bool) (hc : c.isRequest = true) (hcond : Considerate s (.call c captured)) :
    Answered ext deeds events s c captured := by
  obtain ⟨hdefined, hexec⟩ := Thread.seen hrun
  have hadvance : (Thread.machine ext).step s (.call c captured) = _ :=
    Thread.step_call hdefined hcond
  have hrefused := Call.refused_eq hc s.world.fsm.state
  unfold Answered
  rw [hadvance]
  rcases (requests_gated ext results _ s.world events hexec).1 c hc with
    ⟨⟨msg, hmsg, hwrite⟩, hgranted, hclose⟩ | ⟨_, hbusy⟩
  · have hidle : s.world.fsm.state = .IDLE := by
      by_contra hstate
      rw [reject_run AsyncConnection.con c hc hstate] at hwrite
      cases hwrite
    obtain ⟨fsm, msg', wh, haccept, _, _, hmsg', _, _⟩ := accept_run c hc hidle
    refine Or.inl ⟨{ s.world with fsm := fsm, net := s.world.net ++ [.write msg' wh] }, msg', ?_,
      hmsg', hgranted, ?_⟩
    · rw [hidle] at hrefused
      simp [Thread.advance, AsyncConnection.machine, haccept, invoked, Thread.entered, hrefused,
        hidle, Event.invoked?]
    · intro h lent hmem
      exact hclose h (List.mem_filterMap.mpr ⟨_, hmem, rfl⟩)
  · have hstate : s.world.fsm.state ≠ .IDLE := by
      intro hidle
      obtain ⟨fsm, msg', wh, haccept, _, _, _, _, _⟩ := accept_run (w := s.world) c hc hidle
      rw [haccept] at hbusy
      cases congrArg Outcome.events hbusy
    refine Or.inr ?_
    simp [Thread.advance, AsyncConnection.machine, hbusy, invoked, Thread.entered, hrefused,
      hstate, Event.invoked?, hdefined]

/-! Runs without the refused requests. -/

end Lapq
