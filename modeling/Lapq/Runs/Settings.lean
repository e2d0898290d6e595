import Lapq.Steps.Environment
import Lapq.Runs.Conversation
import Lapq.Wire.Frontend

/-!
The settings of a session, from the program's options and the environment to what
the server reads from the start-up message.
-/

namespace Lapq

open Bytes Util

variable {ρ : Type} {ext : Externals ρ}

/-- The environment and the password database hold C strings. -/
structure Host.Terminated (host : Host) : Prop where
  getenv : ∀ var c, host.getenv var = some c → NulFree c
  passwd : ∀ name, host.passwd = some name → NulFree name

theorem getEnv_valid {host : Host} (hhost : host.Terminated) {option : DBOption}
    (hoption : Message.Valid (.startUp option)) :
    Message.Valid (.startUp (getEnv host option)) := by
  have htable : ∀ e ∈ envTable, e.2 ≠ [] ∧ NulFree e.2 := by decide +kernel
  intro e he
  have hfind := (OrderedMap.find_eq_some_iff _ e.1 e.2).mpr he
  cases (getEnv_chosen host option e.1 e.2).mp hfind with
  | given hgiven => exact hoption e ((OrderedMap.find_eq_some_iff _ e.1 e.2).mp hgiven)
  | environment _ var hvar hset _ =>
      obtain ⟨hkey, hname⟩ := htable _ hvar
      exact ⟨hkey, hname, hhost.getenv var _ hset⟩
  | process hkey _ _ hname _ =>
      rw [hkey]
      exact ⟨by decide, by decide, hhost.passwd _ hname⟩

/-- The server reads the start-up message as the options. -/
theorem startUp_read {option : DBOption} (hsend : (Message.startUp option).Sendable) :
    Decoder.stream 1 (Message.startUp option).wire =
      some [((Message.startUp option).frame, .startUp 196608 option.entries)] := by
  have hframes := frames_wire [.startUp option] []
    (fun m hm => by rw [List.mem_singleton.mp hm]; exact hsend)
    (fun m hm => by rw [List.mem_singleton.mp hm]; rfl) (by simp)
  have hbody : Reader.whole (Decoder.body (Message.startUp option).frame.mtype)
      (Message.startUp option).frame.body = some (Message.startUp option).fields :=
    (reads_body (.startUp option) hsend).whole
  simp only [List.append_nil, List.flatMap_cons, List.flatMap_nil, List.map_cons, List.map_nil,
    List.length_singleton] at hframes
  unfold Decoder.stream
  rw [hframes, Option.bind_eq_bind, Option.bind_some, List.mapM_cons, hbody]
  rfl

/-- A connection that succeeds sends the start-up message first. -/
theorem connect_says {option : DBOption} {h : HandlerId} {r : Completion} {labels : List Label}
    {w t : World (List ConnCall) ρ} {events : List Event} (hnet : w.net = [])
    (hok : r.ec.isError = false)
    (hexec : (AsyncConnection.machine ext).exec w
      (.call (.connect option h) :: .complete 0 r :: labels) = some (t, events)) :
    ∃ later, said events = .startUp option :: later := by
  obtain ⟨fsm, results, net⟩ := w
  cases hnet
  obtain ⟨u, first, rest, hconnect, hrest, rfl⟩ := Machine.exec_cons_inv hexec
  cases hconnect
  obtain ⟨v, second, later, hcomplete, -, rfl⟩ := Machine.exec_cons_inv hrest
  simp only [AsyncConnection.machine] at hcomplete
  split at hcomplete
  · cases hcomplete
  · rename_i call hcall
    cases hcall
    split at hcomplete
    · simp only [ConnCall.resume, EHandler.run, hok, Bool.false_eq_true, if_false] at hcomplete
      cases hcomplete
      exact ⟨said later, rfl⟩
    · cases hcomplete

/-- A connection with the options that `getEnv` leaves starts with a message from
which the server reads, once each and in the order of their names, exactly the
program's own options, the variables of the environment that are set for other
options, and the name of the process if no user is given otherwise. -/
theorem settings_sent (ext : Externals ρ) (host : Host) (hhost : host.Terminated)
    (option : DBOption) (hoption : Message.Valid (.startUp option))
    (hlength : (Message.body (.startUp (getEnv host option))).length ≤ 2 ^ 31 - 5)
    (h : HandlerId) (r : Completion) (hok : r.ec.isError = false) (labels : List Label)
    (w t : World (List ConnCall) ρ) (hnet : w.net = []) (events : List Event)
    (hexec : (AsyncConnection.machine ext).exec w
      (.call (.connect (getEnv host option) h) :: .complete 0 r :: labels) = some (t, events)) :
    ∃ msg later frame settings, said events = msg :: later ∧
      Decoder.stream 1 msg.wire = some [(frame, .startUp 196608 settings)] ∧
      (settings.map Prod.fst).Pairwise (· < ·) ∧
      ∀ key v, (key, v) ∈ settings ↔ Chosen host option key v := by
  obtain ⟨later, hsaid⟩ := connect_says hnet hok hexec
  have hread := startUp_read ⟨getEnv_valid hhost hoption, hlength⟩
  refine ⟨_, later, _, (getEnv host option).entries, hsaid, hread, ?_, ?_⟩
  · rw [List.pairwise_map]
    exact (getEnv host option).sorted
  · intro key v
    rw [← OrderedMap.find_eq_some_iff, getEnv_chosen]

/-- An environment that names a database, with an empty time zone. -/
def shell : Host where
  getenv var :=
    if var = ascii "PGDATABASE" then some (ascii "db")
    else if var = ascii "PGTZ" then some []
    else none
  passwd := some (ascii "me")

theorem shell_terminated : shell.Terminated := by
  refine ⟨?_, ?_⟩
  · intro var c hc
    simp only [shell] at hc
    split at hc
    · cases hc
      decide
    · split at hc
      · cases hc
        decide
      · cases hc
  · intro name hname
    cases hname
    decide

theorem settings_sent_shell :
    ∃ (t : World (List ConnCall) (ResultSet Pg.Value)) (events : List Event) (msg : Message)
      (later : List Message) (frame : Frame) (settings : List (Str × Str)),
      (AsyncConnection.machine (Externals.standard fun _ => [])).exec (World.init fun _ => [])
        [.call (.connect (getEnv shell .empty) 0), .complete 0 (.delivered [])] =
        some (t, events) ∧
      said events = msg :: later ∧
      Decoder.stream 1 msg.wire = some [(frame, .startUp 196608 settings)] ∧
      (Opt.user, ascii "me") ∈ settings ∧ (Opt.database, ascii "db") ∈ settings := by
  obtain ⟨msg, later, frame, settings, hsaid, hread, _, hall⟩ := settings_sent
    (Externals.standard fun _ => []) shell shell_terminated .empty (by intro e he; cases he)
    (by decide +kernel) 0 (.delivered []) rfl [] (World.init fun _ => []) _ rfl _ rfl
  refine ⟨_, _, msg, later, frame, settings, rfl, hsaid, hread, ?_, ?_⟩
  · refine (hall _ _).mpr (.process rfl rfl ?_ rfl (by decide))
    intro c hc
    rw [show shell.getenv (ascii "PGUSER") = none by decide] at hc
    cases hc
  · exact (hall _ _).mpr (.environment rfl (ascii "PGDATABASE") (by decide) (by decide) (by decide))

end Lapq
