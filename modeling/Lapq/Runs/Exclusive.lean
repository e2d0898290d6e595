import Mathlib.Data.List.Perm.Basic
import Lapq.Steps.Machine

/-!
How many calls are outstanding on an asynchronous connection, and in which
states a message can arrive.

The state machine is written for one chain of calls at a time: each callback
issues at most one more call. Three things start a second chain. A request for
an MD5 password is answered by a write and a read at once; `close` does not ask
whether a chain is in progress; and `connect` asks for nothing at all. Without
them at most one call besides the `Terminate` is outstanding, and the state has
a row whenever a message can arrive.
-/

namespace Lapq

variable {ρ : Type} {ext : Externals ρ} {w w' : World (List ConnCall) ρ}
  {h : HandlerId} {r : Completion} {call : ConnCall} {es : List Event}

def ConnCall.isRead : ConnCall → Bool
  | .read .. => true
  | _ => false

def ConnCall.isWrite : ConnCall → Bool
  | .write .. => true
  | _ => false

/-- The calls that belong to an operation, and not to the end of the session. -/
def ConnCall.isLive (call : ConnCall) : Bool := !call.isTerminate

/-- The server asks for an MD5 password and is understood. -/
def AsksPassword (w : World (List ConnCall) ρ) : Label → Prop
  | .call _ => False
  | .complete i r =>
      match w.net[i]? with
      | some (.read _ (.body head)) =>
          r.ec.isError = false ∧ w.fsm.state = .AUTH ∧ IsAuthentication 5 head r.data
      | _ => False

instance (w : World (List ConnCall) ρ) : (label : Label) → Decidable (AsksPassword w label)
  | .call _ => inferInstanceAs (Decidable False)
  | .complete i r => by
      unfold AsksPassword
      dsimp only
      split <;> infer_instance

theorem countP_of_getElem? {α : Type} (p : α → Bool) {l : List α} {i : Nat} {x : α}
    (hx : l[i]? = some x) :
    l.countP p = (l.eraseIdx i).countP p + if p x then 1 else 0 := by
  obtain ⟨hi, rfl⟩ := List.getElem?_eq_some_iff.mp hx
  rw [← (List.getElem_cons_eraseIdx_perm hi).countP_eq p, List.countP_cons]

/-- A completed call of an operation issues at most one more, unless it is a
request for a password; the state then is the same or `CONN`. A finished
session issues nothing but reads. -/
theorem Resumes.live (hres : Resumes h w r call w' es)
    (hlive : call.isLive = true)
    (hpassword : ∀ len head, call = .read len (.body head) → r.ec.isError = false →
      w.fsm.state = .AUTH → ¬ IsAuthentication 5 head r.data) :
    ∃ issued : Option ConnCall, w'.net = w.net ++ issued.toList ∧
      (∀ c ∈ issued, c.isLive = true) ∧
      (issued.isSome = true → w'.fsm.state = w.fsm.state ∨ w'.fsm.state = .CONN) ∧
      (w.fsm.state = .END → w'.fsm.state = .END ∧
        (call.isRead = true → ∀ c ∈ issued, c.isRead = true)) := by
  cases hres with
  | reported _ ec _ => exact ⟨none, by simp, by simp, by simp, fun hend => ⟨hend, by simp⟩⟩
  | lost _ e => exact ⟨none, by simp, by simp, by simp, fun hend => ⟨hend, by simp⟩⟩
  | wrote _ msg wh _ hwrite _ hfrom _ =>
      refine ⟨some (.write msg wh), rfl, ?_, fun _ => Or.inl rfl, ?_⟩
      · rintro c ⟨rfl⟩
        simp [ConnCall.isLive, hwrite]
      · intro hend
        refine ⟨hend, ?_⟩
        intro hread
        rcases hfrom with ⟨eh, rfl⟩ | ⟨msg, wh, rfl⟩ <;> cases hread
  | reading msg wh _ =>
      refine ⟨some .header, rfl, ?_, fun _ => Or.inl rfl, fun hend => ⟨hend, ?_⟩⟩
      · rintro c ⟨rfl⟩
        rfl
      · simp [ConnCall.isRead]
  | header len head _ _ _ _ =>
      refine ⟨some (.read (toSize head.bodyLen) (.body head)), rfl, ?_, fun _ => Or.inl rfl, ?_⟩
      · rintro c ⟨rfl⟩
        rfl
      · intro hend
        refine ⟨hend, ?_⟩
        rintro _ c ⟨rfl⟩
        rfl
  | closed msg ec => cases hlive
  | dispatched len head hok o hreact =>
      rcases hreact with ⟨_, rfl⟩ | ⟨hrow, hreact⟩
      · exact ⟨none, by simp, by simp, by simp, fun hend => ⟨hend, by simp⟩⟩
      have hend : w.fsm.state ≠ .END := by
        intro hend
        rw [hend] at hrow
        cases hrow
      have hheader : ∀ c ∈ some ConnCall.header, c.isLive = true := by
        rintro c ⟨rfl⟩
        rfl
      cases hreact with
      | goOn results es _ =>
          exact ⟨some .header, rfl, hheader, fun _ => Or.inl rfl, fun h => absurd h hend⟩
      | authOk _ _ =>
          exact ⟨some .header, rfl, hheader, fun _ => Or.inr rfl, fun h => absurd h hend⟩
      | md5 hstate hmsg msg _ => exact absurd hmsg (hpassword len head rfl hok hstate)
      | report ec _ => exact ⟨none, by simp, by simp, by simp, fun h => absurd h hend⟩
      | authError _ _ ec => exact ⟨none, by simp, by simp, by simp, fun h => absurd h hend⟩
      | ready _ _ ec => exact ⟨none, by simp, by simp, by simp, fun h => absurd h hend⟩
      | ended _ ec => exact ⟨none, by simp, by simp, by simp, fun h => absurd h hend⟩
      | aborted e results es _ => exact ⟨none, by simp, by simp, by simp, fun h => absurd h hend⟩

/-- The end of a session leaves what it finds. -/
theorem Resumes.terminated (hres : Resumes h w r call w' es)
    (hterm : call.isTerminate = true) :
    w' = w ∧ ∃ ec, es = [.closed, .handler h ec w.fsm.state] := by
  cases hres with
  | reported hcall ec _ =>
      rw [hterm] at hcall
      cases hcall
  | lost hcall e =>
      rw [hterm] at hcall
      cases hcall
  | wrote hcall msg wh _ _ _ _ _ =>
      rw [hterm] at hcall
      cases hcall
  | reading msg wh hcall =>
      rw [hterm] at hcall
      cases hcall
  | header len head _ _ _ _ => cases hterm
  | dispatched len head _ o _ => cases hterm
  | closed msg ec => exact ⟨rfl, ec, rfl⟩

theorem not_asksPassword {i : Nat} (hcall : w.net[i]? = some call)
    (hnot : ¬ AsksPassword w (.complete i r)) (len : Nat) (head : Header)
    (heq : call = .read len (.body head)) (hok : r.ec.isError = false)
    (hstate : w.fsm.state = .AUTH) : ¬ IsAuthentication 5 head r.data := by
  intro hmsg
  subst heq
  apply hnot
  simp only [AsksPassword, hcall]
  exact ⟨hok, hstate, hmsg⟩

def World.live (w : World (List ConnCall) ρ) : Nat := w.net.countP ConnCall.isLive

theorem World.live_push (w : World (List ConnCall) ρ) (fsm : FSM) (call : ConnCall) :
    ({ w with fsm := fsm, net := w.net ++ [call] } : World (List ConnCall) ρ).live =
      w.live + if call.isLive then 1 else 0 := by
  simp [World.live, List.countP_append, List.countP_cons]

/-! Dispatch. -/

/-- The states in which messages were handed to `FSM::next`. -/
def dispatchStates (events : List Event) : List State :=
  events.filterMap fun
    | .dispatch state _ _ => some state
    | _ => none

/-- Every message was dispatched in a state that has a row. -/
def DispatchTotal (events : List Event) : Prop :=
  ∀ state ∈ dispatchStates events, (tableRow state).isSome = true

/-- No operation is in progress when `close` or `connect` is called, `connect`
starts in a state with a row, and the server asks for no MD5 password. -/
def OneChain (w : World (List ConnCall) ρ) : Label → Prop
  | .call (.connect ..) => w.live = 0 ∧ (tableRow w.fsm.state).isSome = true
  | .call (.close _) => w.live = 0
  | .call _ => True
  | .complete i r => ¬ AsksPassword w (.complete i r)

instance (w : World (List ConnCall) ρ) : (label : Label) → Decidable (OneChain w label)
  | .call (.connect ..) =>
      inferInstanceAs (Decidable (w.live = 0 ∧ (tableRow w.fsm.state).isSome = true))
  | .call (.close _) => inferInstanceAs (Decidable (w.live = 0))
  | .call (.exec ..) | .call (.execQuery ..) | .call (.parse ..) =>
      inferInstanceAs (Decidable True)
  | .complete i r => inferInstanceAs (Decidable (¬ AsksPassword w (.complete i r)))

structure ChainInv (w : World (List ConnCall) ρ) (events : List Event) : Prop where
  live : w.live ≤ 1
  row : 0 < w.live → (tableRow w.fsm.state).isSome = true
  total : DispatchTotal events

theorem DispatchTotal.append {events : List Event} (hold : DispatchTotal events)
    (hnew : DispatchTotal es) : DispatchTotal (events ++ es) := by
  intro state hmem
  rw [dispatchStates, List.filterMap_append] at hmem
  rcases List.mem_append.mp hmem with h | h
  · exact hold state h
  · exact hnew state h

theorem DispatchTotal.of_forall (hes : ∀ e ∈ es, ∀ state head body,
    e = .dispatch state head body → (tableRow state).isSome = true) : DispatchTotal es := by
  intro state hmem
  obtain ⟨e, he, hstate⟩ := List.mem_filterMap.mp hmem
  cases e with
  | dispatch st head body =>
      cases hstate
      exact hes _ he _ head body rfl
  | write msg => cases hstate
  | result id call => cases hstate
  | handler id ec st => cases hstate
  | closed => cases hstate
  | abort e => cases hstate

/-- A completion dispatches at most in the state it finds. -/
theorem Resumes.dispatch_state (hres : Resumes h w r call w' es) {e : Event} (he : e ∈ es)
    {state : State} {head : Header} {body : Buffer} (heq : e = .dispatch state head body) :
    state = w.fsm.state ∧ call.isLive = true := by
  subst heq
  cases hres with
  | reported _ ec _ => simp at he
  | lost _ e => simp at he
  | wrote _ msg wh _ _ _ _ _ => simp at he
  | reading msg wh _ => simp at he
  | header len head _ _ _ _ => simp at he
  | closed msg ec => simp at he
  | dispatched len head' hok o hreact =>
      refine ⟨?_, rfl⟩
      rcases List.mem_cons.mp he with heq | hmem
      · cases heq
        rfl
      · rcases hreact with ⟨_, rfl⟩ | ⟨_, hreact⟩
        · simp at hmem
        · exact absurd hmem (hreact.no_dispatch state head body)

theorem World.live_erase {i : Nat} (hcall : w.net[i]? = some call) :
    w.live = ({ w with net := w.net.eraseIdx i } : World (List ConnCall) ρ).live +
      if call.isLive then 1 else 0 :=
  countP_of_getElem? ConnCall.isLive hcall

theorem World.live_issued {issued : Option ConnCall}
    (hnet : w'.net = w.net ++ issued.toList) (hlive : ∀ c ∈ issued, c.isLive = true) :
    w'.live = w.live + if issued.isSome then 1 else 0 := by
  unfold World.live
  rw [hnet, List.countP_append]
  cases issued with
  | none => rfl
  | some c => simp [hlive c rfl]

theorem ChainInv.complete {events : List Event} (hinv : ChainInv w events) {i : Nat}
    (hcall : w.net[i]? = some call) (hcond : ¬ AsksPassword w (.complete i r))
    (hres : Resumes h { w with net := w.net.eraseIdx i } r call w' es) :
    ChainInv w' (events ++ es) := by
  have herase := World.live_erase hcall
  have hle := hinv.live
  have htotal : DispatchTotal es := by
    apply DispatchTotal.of_forall
    intro e he state head body heq
    obtain ⟨hstate, hlive⟩ := hres.dispatch_state he heq
    rw [hlive, if_pos rfl] at herase
    rw [hstate]
    exact hinv.row (by omega)
  cases hterm : call.isTerminate with
  | true =>
      obtain ⟨rfl, _⟩ := hres.terminated hterm
      simp only [ConnCall.isLive, hterm, Bool.not_true, Bool.false_eq_true, if_false,
        Nat.add_zero] at herase
      refine ⟨?_, ?_, hinv.total.append htotal⟩
      · exact herase ▸ hle
      · intro hpos
        exact hinv.row (herase ▸ hpos)
  | false =>
      have hlive : call.isLive = true := by
        simp [ConnCall.isLive, hterm]
      rw [hlive, if_pos rfl] at herase
      have hpassword := not_asksPassword hcall hcond
      obtain ⟨issued, hnet, hissued, hstate, _⟩ := hres.live hlive hpassword
      have hafter := World.live_issued hnet hissued
      have hone : (if issued.isSome then 1 else 0) ≤ 1 := by
        split <;> omega
      refine ⟨by omega, ?_, hinv.total.append htotal⟩
      intro hpos
      have hsome : issued.isSome = true := by
        by_contra hnone
        rw [if_neg hnone] at hafter
        omega
      rcases hstate hsome with hsame | hconn
      · rw [hsame]
        exact hinv.row (by omega)
      · rw [hconn]
        rfl

theorem ChainInv.step {events : List Event} {label : Label} (hinv : ChainInv w events)
    (hcond : OneChain w label) (hcase : StepCase w label w' es) :
    ChainInv w' (events ++ es) := by
  cases hcase with
  | connect option h =>
      obtain ⟨hidle, hrow⟩ := hcond
      have hlive := World.live_push w { w.fsm with ehandler := some h }
        (.connect (.connected option))
      rw [hidle] at hlive
      refine ⟨le_of_eq hlive, fun _ => hrow, ?_⟩
      simpa using hinv.total
  | reject c _ _ =>
      refine ⟨hinv.live, hinv.row, hinv.total.append ?_⟩
      simp [DispatchTotal, dispatchStates]
  | accept c _ hstate fsm _ hnext msg wh _ _ hwrite =>
      have hidle : w.live = 0 := by
        by_contra hne
        have hrow := hinv.row (Nat.pos_of_ne_zero hne)
        rw [hstate] at hrow
        cases hrow
      have hlive := World.live_push w fsm (.write msg wh)
      rw [hidle, ConnCall.isLive, hwrite] at hlive
      refine ⟨le_of_eq hlive, ?_, hinv.total.append ?_⟩
      · intro _
        rcases hnext with h | h <;> simp only [h] <;> rfl
      · simp [DispatchTotal, dispatchStates]
  | close h =>
      have hidle : w.live = 0 := hcond
      have hlive := World.live_push w { w.fsm with state := .END, ehandler := some h }
        (.write .terminate .terminateWritten)
      rw [hidle] at hlive
      refine ⟨?_, ?_, hinv.total.append ?_⟩
      · exact hlive.trans_le (by decide)
      · intro hpos
        rw [hlive] at hpos
        exact absurd hpos (by decide)
      · simp [DispatchTotal, dispatchStates]
  | complete i r call hcall _ h _ hres => exact hinv.complete hcall hcond hres

/-- In every run in which `close` and `connect` are called between operations
only, `connect` never in a state without a row, and no MD5 password is asked
for, every message is dispatched in a state that has a row. -/
theorem dispatch_total (ext : Externals ρ) (results : ResultId → ρ) (labels : List Label)
    (t : World (List ConnCall) ρ) (events : List Event)
    (hrun : (AsyncConnection.machine ext).Run OneChain (World.init results) labels t events) :
    DispatchTotal events := by
  refine (run_invariant (fun _ w events => ChainInv w events) ?_ ?_ hrun).2.total
  · exact ⟨by simp [World.live, World.init], by simp [World.live, World.init],
      by simp [DispatchTotal, dispatchStates]⟩
  · intro labels w w' label events es _ hinv hcond hcase
    exact hinv.step hcond hcase

/-- A session that logs on, runs a statement and closes. -/
def session : List Label :=
  logOn .empty 0 ++
    [.call (.exec (ascii "a") none 1), .complete 0 (.sent (.query (ascii "a"))),
      .complete 0 (.delivered [90, 0, 0, 0, 5]), .complete 0 (.delivered [73]),
      .call (.close 2), .complete 0 (.sent .terminate)]

theorem dispatch_total_session :
    ∃ t events, (AsyncConnection.machine (Externals.standard fun _ => [])).Run OneChain
        (World.init fun _ => []) session t events ∧
      dispatchStates events = [.AUTH, .CONN, .QUERY] ∧ DispatchTotal events := by
  have hexec : ∃ t events, ((AsyncConnection.machine (Externals.standard fun _ => [])).restrict
        OneChain).exec (World.init fun _ => []) session = some (t, events) ∧
      dispatchStates events = [.AUTH, .CONN, .QUERY] := ⟨_, _, rfl, rfl⟩
  obtain ⟨t, events, hexec, hstates⟩ := hexec
  have hrun := Machine.run_of_exec_restrict hexec
  exact ⟨t, events, hrun, hstates, dispatch_total _ _ _ _ _ hrun⟩

/-- The server's answer to the start-up message arrives after `close` was
called: it is dispatched in `END`. -/
theorem dispatch_not_total :
    ¬ ∀ labels t events, (AsyncConnection.machine (Externals.standard fun _ => [])).exec
        (World.init fun _ => []) labels = some (t, events) → DispatchTotal events := by
  intro htotal
  have hrow := htotal [.call (.connect .empty 0), .complete 0 (.delivered []),
    .complete 0 (.sent (.startUp .empty)), .call (.close 1),
    .complete 0 (.delivered [82, 0, 0, 0, 8]), .complete 1 (.delivered [0, 0, 0, 0])] _ _ rfl
    .END (by decide)
  cases hrow

/-! Exclusive use of the stream. -/

/-- At most one read and one write are outstanding, and no read in `IDLE`. -/
structure Exclusive (w : World (List ConnCall) ρ) : Prop where
  reads : w.net.countP ConnCall.isRead ≤ 1
  writes : w.net.countP ConnCall.isWrite ≤ 1
  idle : w.fsm.state = .IDLE → w.net.countP ConnCall.isRead = 0

/-- `connect` is called with nothing outstanding and not in `IDLE`, `close` with
nothing but reads outstanding, and the server asks for no MD5 password. -/
def Undisturbed (w : World (List ConnCall) ρ) : Label → Prop
  | .call (.connect ..) => w.net.isEmpty = true ∧ w.fsm.state ≠ .IDLE
  | .call (.close _) => w.net.all ConnCall.isRead = true
  | .call _ => True
  | .complete i r => ¬ AsksPassword w (.complete i r)

instance (w : World (List ConnCall) ρ) : (label : Label) → Decidable (Undisturbed w label)
  | .call (.connect ..) =>
      inferInstanceAs (Decidable (w.net.isEmpty = true ∧ w.fsm.state ≠ .IDLE))
  | .call (.close _) => inferInstanceAs (Decidable (w.net.all ConnCall.isRead = true))
  | .call (.exec ..) | .call (.execQuery ..) | .call (.parse ..) =>
      inferInstanceAs (Decidable True)
  | .complete i r => inferInstanceAs (Decidable (¬ AsksPassword w (.complete i r)))

def World.ending (w : World (List ConnCall) ρ) : Nat := w.net.countP ConnCall.isTerminate

/-- An operation has one call outstanding, or none in `IDLE`; while a
`Terminate` is written what is left of it is a read, in the state `END`. -/
structure ExclusiveInv (w : World (List ConnCall) ρ) : Prop where
  live : w.live ≤ 1
  idle : w.fsm.state = .IDLE → w.live = 0
  once : w.ending ≤ 1
  ended : 0 < w.ending → w.fsm.state = .END
  reads : 0 < w.ending → ∀ c ∈ w.net, c.isLive = true → c.isRead = true

theorem isLive_of_isRead (c : ConnCall) (hread : c.isRead = true) : c.isLive = true := by
  cases c with
  | connect eh => cases hread
  | read len rh => rfl
  | write msg wh => cases hread

theorem ExclusiveInv.exclusive (hinv : ExclusiveInv w) : Exclusive w := by
  have hreads : w.net.countP ConnCall.isRead ≤ w.live := by
    apply List.countP_mono_left
    intro c _ hread
    exact isLive_of_isRead c hread
  refine ⟨hreads.trans hinv.live, ?_, ?_⟩
  · rcases Nat.eq_zero_or_pos w.ending with hnone | hpos
    · have hlive : w.net.countP ConnCall.isWrite ≤ w.live := by
        apply List.countP_mono_left
        intro c hc _
        have hterm := List.countP_eq_zero.mp hnone c hc
        simpa [ConnCall.isLive] using hterm
      exact hlive.trans hinv.live
    · have hterms : w.net.countP ConnCall.isWrite ≤ w.ending := by
        apply List.countP_mono_left
        intro c hc hwrite
        by_contra hterm
        have hread := hinv.reads hpos c hc (by simpa [ConnCall.isLive] using hterm)
        cases c with
        | connect eh => cases hwrite
        | read len rh => cases hwrite
        | write msg wh => cases hread
      exact hterms.trans hinv.once
  · intro hidle
    have hlive := hinv.idle hidle
    omega

theorem World.ending_push (w : World (List ConnCall) ρ) (fsm : FSM) (call : ConnCall) :
    ({ w with fsm := fsm, net := w.net ++ [call] } : World (List ConnCall) ρ).ending =
      w.ending + if call.isTerminate then 1 else 0 := by
  simp [World.ending, List.countP_append, List.countP_cons]

theorem World.ending_issued {issued : Option ConnCall}
    (hnet : w'.net = w.net ++ issued.toList) (hlive : ∀ c ∈ issued, c.isLive = true) :
    w'.ending = w.ending := by
  unfold World.ending
  rw [hnet, List.countP_append]
  cases issued with
  | none => rfl
  | some c =>
      have hterm : c.isTerminate = false := by
        simpa [ConnCall.isLive] using hlive c rfl
      simp [hterm]

theorem World.ending_erase {i : Nat} (hcall : w.net[i]? = some call) :
    w.ending = ({ w with net := w.net.eraseIdx i } : World (List ConnCall) ρ).ending +
      if call.isTerminate then 1 else 0 :=
  countP_of_getElem? ConnCall.isTerminate hcall

theorem ExclusiveInv.complete (hinv : ExclusiveInv w) {i : Nat}
    (hcall : w.net[i]? = some call) (hcond : ¬ AsksPassword w (.complete i r))
    (hres : Resumes h { w with net := w.net.eraseIdx i } r call w' es) :
    ExclusiveInv w' := by
  have hlives := World.live_erase hcall
  have hendings := World.ending_erase hcall
  have hle := hinv.live
  have honce := hinv.once
  cases hterm : call.isTerminate with
  | true =>
      obtain ⟨rfl, _⟩ := hres.terminated hterm
      simp only [ConnCall.isLive, hterm, Bool.not_true, Bool.false_eq_true, if_false,
        Nat.add_zero] at hlives
      rw [hterm, if_pos rfl] at hendings
      refine ⟨hlives ▸ hle, ?_, by omega, ?_, ?_⟩
      · intro hidle
        exact hlives ▸ hinv.idle hidle
      · intro _
        exact hinv.ended (by omega)
      · intro _ c hc hlive
        exact hinv.reads (by omega) c (List.mem_of_mem_eraseIdx hc) hlive
  | false =>
      have hlive : call.isLive = true := by
        simp [ConnCall.isLive, hterm]
      rw [hlive, if_pos rfl] at hlives
      simp only [hterm, Bool.false_eq_true, if_false, Nat.add_zero] at hendings
      have hpassword := not_asksPassword hcall hcond
      obtain ⟨issued, hnet, hissued, hstate, hended⟩ := hres.live hlive hpassword
      have hafter := World.live_issued hnet hissued
      have hsame := World.ending_issued hnet hissued
      have hone : (if issued.isSome then 1 else 0) ≤ 1 := by
        split <;> omega
      refine ⟨by omega, ?_, by omega, ?_, ?_⟩
      · intro hidle
        by_contra hne
        have hsome : issued.isSome = true := by
          by_contra hnone
          rw [if_neg hnone] at hafter
          omega
        rcases hstate hsome with hkept | hconn
        · rw [hkept] at hidle
          have hzero := hinv.idle hidle
          omega
        · rw [hconn] at hidle
          cases hidle
      · intro hpos
        exact (hended (hinv.ended (by omega))).1
      · intro hpos c hc hclive
        have hterms : 0 < w.ending := by omega
        rw [hnet] at hc
        rcases List.mem_append.mp hc with hold | hnew
        · exact hinv.reads hterms c (List.mem_of_mem_eraseIdx hold) hclive
        · have hread := hinv.reads hterms call (List.mem_of_getElem? hcall) hlive
          exact (hended (hinv.ended hterms)).2 hread c (Option.mem_toList.mp hnew)

theorem ExclusiveInv.step {label : Label} (hinv : ExclusiveInv w)
    (hcond : Undisturbed w label) (hcase : StepCase w label w' es) : ExclusiveInv w' := by
  cases hcase with
  | connect option h =>
      obtain ⟨hempty, hstate⟩ := hcond
      have hnet : w.net = [] := List.isEmpty_iff.mp hempty
      have hlive := World.live_push w { w.fsm with ehandler := some h }
        (.connect (.connected option))
      have hending := World.ending_push w { w.fsm with ehandler := some h }
        (.connect (.connected option))
      have hzero : w.live = 0 ∧ w.ending = 0 := by
        unfold World.live World.ending
        rw [hnet]
        exact ⟨rfl, rfl⟩
      rw [hzero.1] at hlive
      rw [hzero.2] at hending
      have hone := hlive.trans (show 0 + 1 = 1 from rfl)
      have hnone := hending.trans (show 0 + 0 = 0 from rfl)
      exact ⟨le_of_eq hone, fun hidle => absurd hidle hstate, by omega, by omega, by omega⟩
  | reject c _ _ => exact hinv
  | accept c _ hstate fsm _ hnext msg wh _ _ hwrite =>
      have hzero := hinv.idle hstate
      have hnone : w.ending = 0 := by
        by_contra hne
        have hend := hinv.ended (Nat.pos_of_ne_zero hne)
        rw [hstate] at hend
        cases hend
      have hlive := World.live_push w fsm (.write msg wh)
      rw [hzero, ConnCall.isLive, hwrite] at hlive
      have hending := World.ending_push w fsm (.write msg wh)
      rw [hnone, hwrite] at hending
      simp only [Bool.false_eq_true, if_false, Nat.add_zero] at hending
      refine ⟨le_of_eq hlive, ?_, by omega, by omega, by omega⟩
      intro hidle
      rcases hnext with h | h <;> rw [show fsm.state = .IDLE from hidle] at h <;> cases h
  | close h =>
      have hreads : ∀ c ∈ w.net, c.isRead = true := List.all_eq_true.mp hcond
      have hlive := World.live_push w { w.fsm with state := .END, ehandler := some h }
        (.write .terminate .terminateWritten)
      have hnone : w.ending = 0 := by
        apply List.countP_eq_zero.mpr
        intro c hc
        have hlive := isLive_of_isRead c (hreads c hc)
        simpa [ConnCall.isLive] using hlive
      have hle := hinv.live
      have hidle : State.END ≠ .IDLE := by decide
      refine ⟨?_, fun h => absurd h hidle, ?_, fun _ => rfl, ?_⟩
      · exact hlive.trans_le (by simpa [ConnCall.isLive, ConnCall.isTerminate] using hle)
      · have hending := World.ending_push w { w.fsm with state := .END, ehandler := some h }
          (.write .terminate .terminateWritten)
        rw [hnone] at hending
        exact le_of_eq hending
      · intro _ c hc hclive
        rcases List.mem_append.mp hc with hold | hnew
        · exact hreads c hold
        · rw [List.mem_singleton.mp hnew] at hclive
          cases hclive
  | complete i r call hcall _ h _ hres => exact hinv.complete hcall hcond hres

/-- In every run in which `connect` finds the stream unused and not in `IDLE`,
`close` finds no write and no connect outstanding, and no MD5 password is asked
for, the stream is used exclusively in every state reached. -/
theorem exclusive_io (ext : Externals ρ) (results : ResultId → ρ) (labels : List Label)
    (t : World (List ConnCall) ρ) (events : List Event)
    (hrun : (AsyncConnection.machine ext).Run Undisturbed (World.init results) labels t
      events) : Exclusive t := by
  refine (run_invariant (fun _ w _ => ExclusiveInv w) ?_ ?_ hrun).2.exclusive
  · exact ⟨by simp [World.live, World.init], by simp [World.live, World.init],
      by simp [World.ending, World.init], by simp [World.ending, World.init],
      by simp [World.init]⟩
  · intro labels w w' label events es _ hinv hcond hcase
    exact hinv.step hcond hcase

theorem exclusive_io_session :
    ∃ t events, (AsyncConnection.machine (Externals.standard fun _ => [])).Run Undisturbed
        (World.init fun _ => []) session t events ∧ Exclusive t := by
  have hexec : ∃ t events, ((AsyncConnection.machine (Externals.standard fun _ => [])).restrict
      Undisturbed).exec (World.init fun _ => []) session = some (t, events) := ⟨_, _, rfl⟩
  obtain ⟨t, events, hexec⟩ := hexec
  have hrun := Machine.run_of_exec_restrict hexec
  exact ⟨t, events, hrun, exclusive_io _ _ _ _ _ hrun⟩

/-- `close` while the query is being written: two writes. -/
theorem not_exclusive_io :
    ¬ ∀ labels t events, (AsyncConnection.machine (Externals.standard fun _ => [])).exec
        (World.init fun _ => []) labels = some (t, events) → Exclusive t := by
  intro hall
  have hexclusive := hall (logOn .empty 0 ++
    [.call (.exec (ascii "a") none 1), .call (.close 2)]) _ _ rfl
  have hwrites := hexclusive.writes
  exact absurd hwrites (by decide)

end Lapq
