import Lapq.Runs.Exclusive
import Lapq.Replies.Receive

/-!
What the client does with a request for authentication. The codes other than
those of success and of an MD5 password fall through the `switch`, and so does
the password's case: a `receive` follows each of them.
-/

namespace Lapq

open Bytes Backend

variable {ρ : Type} {ext : Externals ρ} {w w' : World (List ConnCall) ρ} {es : List Event}

/-- The password message of the source. -/
def knownPassword (ext : Externals ρ) (salt : Byte4) : Message :=
  Password.make ext.md5 (ascii "gptest") (ascii "secret") salt

/-- A request for authentication that is dispatched in `AUTH`: the state and the
calls on the connection that follow from its code. -/
theorem next_authentication (ext : Externals ρ) (t : Int) (data : Buffer)
    (hmsg : WellFormed (.authentication t data)) (hstate : w.fsm.state = .AUTH) :
    ∃ salt, FSM.next ext AsyncConnection.con (header (.authentication t data)).mtype
        (header (.authentication t data)) (body (.authentication t data)) w =
      let dispatch := Event.dispatch .AUTH (header (.authentication t data))
        (body (.authentication t data))
      if t = 0 then
        ⟨.ok (), { w with fsm := { w.fsm with state := .CONN }, net := w.net ++ [.header] },
          [dispatch]⟩
      else if t = 5 then
        ⟨.ok (), { w with net := w.net ++
            [.write (knownPassword ext salt) .passwordWritten, .header] },
          [dispatch, .write (knownPassword ext salt)]⟩
      else ⟨.ok (), { w with net := w.net ++ [.header] }, [dispatch]⟩ := by
  obtain ⟨salt, hdec⟩ := authentication_deserialize ext.uninitialised t data hmsg
  refine ⟨salt, ?_⟩
  obtain ⟨⟨query, result, ehandler, state⟩, results, net⟩ := w
  cases hstate
  have hrow : tableRow .AUTH = some [(Authentication.mtype, .authenticate),
    (ErrorResponse.mtype, .authError)] := rfl
  rw [next_listed (w := ⟨⟨query, result, ehandler, .AUTH⟩, results, net⟩)
    (header (.authentication t data)) (body (.authentication t data)) hrow rfl rfl]
  simp only [Action.run, FSM.authenticate, hdec, Act.lift_ok, Act.bind_apply, Act.pure_apply]
  rw [if_neg (by simp)]
  by_cases hok : t = Authentication.authOk
  · rw [if_pos hok, if_pos (show t = 0 from hok)]
    rfl
  by_cases hmd5 : t = Authentication.authMd5Password
  · rw [if_neg hok, if_pos hmd5, if_neg (show ¬ t = 0 from hok), if_pos (show t = 5 from hmd5)]
    simp [Act.bind_apply, Outcome.after, knownPassword]
  · rw [if_neg hok, if_neg hmd5, if_neg (show ¬ t = 0 from hok), if_neg (show ¬ t = 5 from hmd5)]
    rfl

/-- A connect with the name of a user is in progress, and the server has not yet
let the client in. -/
structure Connecting (ext : Externals ρ) (option : DBOption) (user : Str) (eh : HandlerId)
    (w : World (List ConnCall) ρ) : Prop where
  user : option.find (ascii "user") = some user
  run : ∃ results completions events,
    (AsyncConnection.machine ext).Run (fun _ _ => True) (World.init results)
      (.call (.connect option eh) :: completions) w events ∧
    ∀ label ∈ completions, ∃ i r, label = .complete i r
  state : w.fsm.state = .AUTH

/-- The reads among the calls that a program issues. -/
def readsIssued (net : List ConnCall) : Nat := net.countP ConnCall.isRead

/-- What is to follow a request for authentication: with success the next state
and a read; an MD5 password for the user's name and the salt, and one read in
all, with the write or when that is done; and an error for anything else. `net`
are the calls that were outstanding before. -/
structure Authenticates (ext : Externals ρ) (user : Str) (eh : HandlerId) (t : Int)
    (data : Buffer) (net : List ConnCall) (w' : World (List ConnCall) ρ) (es : List Event) :
    Prop where
  ok : t = 0 → w'.fsm.state = .CONN ∧ es.filter Event.isWrite = [] ∧
    ∃ len rh, w'.net = net ++ [.read len rh]
  md5 : t = 5 → ∃ pass a b c d wh issued, data = [a, b, c, d] ∧
    es.filter Event.isWrite = [.write (Password.make ext.md5 user pass (a, b, c, d))] ∧
    w'.net = net ++ issued ∧
    .write (Password.make ext.md5 user pass (a, b, c, d)) wh ∈ issued ∧
    readsIssued issued +
      readsIssued (wh.run AsyncConnection.con .success { w' with net := [] }).world.net = 1
  other : t ≠ 0 → t ≠ 5 → (∃ ec state, ec.isError = true ∧ Event.handler eh ec state ∈ es) ∧
    readsIssued w'.net = readsIssued net

/-- A well-formed request for authentication with any code that arrives while a
connect is in progress is answered as it should be exactly when it is a success. -/
theorem authentication_exchange_iff (ext : Externals ρ) (option : DBOption) (user : Str)
    (eh : HandlerId) (w w' : World (List ConnCall) ρ)
    (hconnecting : Connecting ext option user eh w) (t : Int)
    (data : Buffer) (hmsg : WellFormed (.authentication t data)) (i : Nat)
    (hcall : w.net[i]? = some (.read (body (.authentication t data)).length
      (.body (header (.authentication t data))))) (es : List Event)
    (hstep : (AsyncConnection.machine ext).step w
      (.complete i (.delivered (body (.authentication t data)))) = some (w', es)) :
    Authenticates ext user eh t data (w.net.eraseIdx i) w' es ↔ t = 0 := by
  obtain ⟨salt, hnext⟩ := next_authentication (w := { w with net := w.net.eraseIdx i }) ext t data
    hmsg hconnecting.state
  have hresume : ConnCall.resume ext AsyncConnection.con
      (.delivered (body (.authentication t data)))
      (.read (body (.authentication t data)).length (.body (header (.authentication t data))))
      { w with net := w.net.eraseIdx i } = _ := hnext
  simp only [AsyncConnection.machine, hcall] at hstep
  split at hstep
  · rw [hresume] at hstep
    by_cases hok : t = 0
    · rw [if_pos hok] at hstep
      cases hstep
      refine ⟨fun _ => hok, fun _ => ⟨fun _ => ⟨rfl, rfl, _, _, rfl⟩, ?_, ?_⟩⟩
      · intro hmd5
        omega
      · intro hother
        exact absurd hok hother
    by_cases hmd5 : t = 5
    · rw [if_neg hok, if_pos hmd5] at hstep
      cases hstep
      refine ⟨fun hexchange => ?_, fun h => absurd h hok⟩
      obtain ⟨pass, a, b, c, d, wh, issued, _, _, hnet, hwrite, hreads⟩ := hexchange.md5 hmd5
      cases List.append_cancel_left hnet
      have hwh : wh = .passwordWritten := by
        simp only [List.mem_cons, ConnCall.header, reduceCtorEq, List.not_mem_nil, or_false,
          ConnCall.write.injEq] at hwrite
        exact hwrite.2
      subst hwh
      cases hreads
    · rw [if_neg hok, if_neg hmd5] at hstep
      cases hstep
      refine ⟨fun hexchange => ?_, fun h => absurd h hok⟩
      obtain ⟨⟨ec, state, _, hmem⟩, _⟩ := hexchange.other hok hmd5
      simp at hmem
  · cases hstep

/-- The options of a user named `u`. -/
def ownOption : DBOption := OrderedMap.empty.emplace (ascii "user") (ascii "u")

theorem ownOption_user : ownOption.find (ascii "user") = some (ascii "u") := by
  unfold ownOption
  rw [OrderedMap.find_emplace, if_pos rfl]
  rfl

/-- A connect that waits for the four bytes of a request for authentication. -/
def asked : World (List ConnCall) (ResultSet Pg.Value) :=
  ⟨⟨none, none, some 1, .AUTH⟩, fun _ => [], [.read 4 (.body (header (.authentication 0 [])))]⟩

theorem asked_connecting {option : DBOption} {user : Str}
    (huser : option.find (ascii "user") = some user) :
    Connecting (Externals.standard fun _ => []) option user 1 asked where
  user := huser
  run := by
    have hstep : (AsyncConnection.machine (Externals.standard fun _ => [])).step
        ⟨⟨none, none, some 1, .AUTH⟩, fun _ => [], [.write (.startUp option) .startUpWritten]⟩
        (.complete 0 (.sent (.startUp option))) =
        some (⟨⟨none, none, some 1, .AUTH⟩, fun _ => [], [.header]⟩, []) := by
      simp only [AsyncConnection.machine, List.getElem?_cons_zero, ConnCall.resume, written_sent]
      rfl
    have hhead : (AsyncConnection.machine (Externals.standard fun _ => [])).step
        ⟨⟨none, none, some 1, .AUTH⟩, fun _ => [], [.header]⟩
        (.complete 0 (.delivered (mtype (.authentication 0 []) :: be32 8))) =
        some (asked, []) := by
      have hresume : ConnCall.header.resume (Externals.standard fun _ => []) AsyncConnection.con
          (.delivered (mtype (.authentication 0 []) :: be32 8))
          ⟨⟨none, none, some 1, .AUTH⟩, fun _ => [], []⟩ = ⟨.ok (), asked, []⟩ :=
        header_resume (w := ⟨⟨none, none, some 1, .AUTH⟩, fun _ => [], [.header]⟩)
          (show (body (.authentication 0 [])).length + 4 < 2 ^ 31 by decide)
      exact congrArg (fun o => some (Outcome.settle o)) hresume
    refine ⟨fun _ => [], [.complete 0 (.delivered []), .complete 0 (.sent (.startUp option)),
      .complete 0 (.delivered (mtype (.authentication 0 []) :: be32 8))], _,
      .cons trivial rfl <| .cons trivial rfl <| .cons trivial hstep <| .cons trivial hhead .nil, ?_⟩
    simp
  state := rfl

theorem authentication_exchange_iff_trust :
    Authenticates (Externals.standard fun _ => []) (ascii "u") 1 0 [] []
      { asked with fsm := { asked.fsm with state := .CONN }, net := [.header] }
      [.dispatch .AUTH (header (.authentication 0 [])) (body (.authentication 0 []))] :=
  (authentication_exchange_iff _ ownOption (ascii "u") 1 asked _
    (asked_connecting ownOption_user) 0 [] ⟨⟨⟨by decide, by decide⟩, by rintro ⟨⟩⟩, by decide⟩ 0
    rfl _ rfl).mpr rfl

/-- A request for a cleartext password is met with a read, without a word to the
user. -/
theorem authentication_not_exchange :
    ¬ ∀ (option : DBOption) (user : Str) (w w' : World (List ConnCall) (ResultSet Pg.Value)),
      Connecting (Externals.standard fun _ => []) option user 1 w →
      ∀ (t : Int) (data : Buffer), WellFormed (.authentication t data) →
      ∀ (i : Nat) (es : List Event),
      w.net[i]? = some (.read (body (.authentication t data)).length
        (.body (header (.authentication t data)))) →
      (AsyncConnection.machine (Externals.standard fun _ => [])).step w
        (.complete i (.delivered (body (.authentication t data)))) = some (w', es) →
      Authenticates (Externals.standard fun _ => []) user 1 t data (w.net.eraseIdx i) w' es := by
  intro hall
  have hexchange := hall ownOption (ascii "u") asked { asked with net := [.header] }
    (asked_connecting ownOption_user) 3 [] ⟨⟨⟨by decide, by decide⟩, by rintro ⟨⟩⟩, by decide⟩ 0
    [.dispatch .AUTH (header (.authentication 3 [])) (body (.authentication 3 []))] rfl rfl
  obtain ⟨⟨ec, state, _, hmem⟩, _⟩ := hexchange.other (by decide) (by decide)
  simp at hmem

end Lapq
