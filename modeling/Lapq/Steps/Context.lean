import Lapq.Semantics.Context

/-!
The verdict of the TLS set-up. One error code goes through all of its blocks, and
what is returned at the end is what the last of them left there.
-/

namespace Lapq.Util

/-- The files of a context, in the order in which they are looked for. -/
def roles (context : SslContext) (mode : SSLMode) : List FileRole :=
  if mode = .verifyCa ∨ mode = .verifyFull then
    [rootCert context, revocationList context, clientCertificate context,
      clientPrivateKey context]
  else [clientCertificate context, clientPrivateKey context]

namespace FileRole

variable (sys : Platform) (option : DBOption) (role : FileRole)

def defaultFile : Str := getDefaultFileName sys.home role.fileName

/-- A file that was asked for is a regular one and was loaded. One that was not is
taken from the home directory, if it is there. -/
def Loaded : Prop :=
  match getOption option role.key with
  | some fname => sys.status fname = .regular ∧ (role.load fname).isError = false
  | none => sys.status (role.defaultFile sys) = .regular →
      (role.load (role.defaultFile sys)).isError = false

/-- The option names something that is there and is no regular file. -/
def Misnamed : Prop :=
  ∃ fname, getOption option role.key = some fname ∧ sys.status fname = .other

/-- There is no option and no file in the home directory. -/
def Absent : Prop :=
  getOption option role.key = none ∧ ∃ ec, sys.status (role.defaultFile sys) = .missing ec

/-- There is no option and no regular file in the home directory, and what is done
then throws. -/
def Throws : Prop :=
  getOption option role.key = none ∧ sys.status (role.defaultFile sys) ≠ .regular ∧
    ∃ e, role.otherwise = .error e

/-- How the block of one file ends. -/
inductive Ends : Except Leave ErrorCode → Prop
  | goesOn (hloaded : role.Loaded sys option) (hthrows : ¬ role.Throws sys option)
      (hnamed : ¬ role.Misnamed sys option) (ec : ErrorCode)
      (hec : ec.isError = true ↔ role.Absent sys option) : Ends (.ok ec)
  | throws (hloaded : role.Loaded sys option) (hthrows : role.Throws sys option)
      (hnamed : ¬ role.Misnamed sys option) (e : Abort) : Ends (.error (.thrown e))
  | refused (hloaded : ¬ role.Loaded sys option) (hnamed : ¬ role.Misnamed sys option)
      (e : Error) (he : e.isError = true) : Ends (.error (.returned e))
  | accepted (hloaded : ¬ role.Loaded sys option) (hnamed : role.Misnamed sys option)
      (e : Error) (he : e.isError = false) : Ends (.error (.returned e))

variable {sys option role}

theorem ends_of_option {fname : Str} (hoption : getOption option role.key = some fname) :
    role.Ends sys option (role.use sys option) := by
  have hthrows : ¬ role.Throws sys option := by
    simp [Throws, hoption]
  have habsent : ¬ role.Absent sys option := by
    simp [Absent, hoption]
  have hloaded : role.Loaded sys option ↔
      sys.status fname = .regular ∧ (role.load fname).isError = false := by
    simp [Loaded, hoption]
  have hnamed : role.Misnamed sys option ↔ sys.status fname = .other := by
    simp [Misnamed, hoption]
  unfold use
  rw [hoption]
  cases hstatus : sys.status fname with
  | other =>
      simp only [isRegularFile, hstatus]
      exact Ends.accepted (by simp [hloaded, hstatus]) (hnamed.mpr hstatus) _ rfl
  | missing ec =>
      simp only [isRegularFile, hstatus]
      exact Ends.refused (by simp [hloaded, hstatus]) (by simp [hnamed, hstatus]) _ ec.property
  | regular =>
      simp only [isRegularFile, hstatus, loadFile]
      cases hload : (role.load fname).isError with
      | true =>
          exact Ends.refused (by simp [hloaded, hload]) (by simp [hnamed, hstatus]) _ hload
      | false =>
          exact Ends.goesOn (hloaded.mpr ⟨hstatus, hload⟩) hthrows (by simp [hnamed, hstatus]) _
            (by simp [hload, habsent])

theorem use_default (hoption : getOption option role.key = none) :
    role.use sys option =
      if (isRegularFile sys (role.defaultFile sys)).1 then role.loadFile (role.defaultFile sys)
      else match role.otherwise with
        | .ok _ => .ok (isRegularFile sys (role.defaultFile sys)).2
        | .error e => .error (.thrown e) := by
  unfold use
  rw [hoption]
  rfl

theorem ends_of_default (hoption : getOption option role.key = none) :
    role.Ends sys option (role.use sys option) := by
  have hnamed : ¬ role.Misnamed sys option := by
    simp [Misnamed, hoption]
  have hloaded : role.Loaded sys option ↔ (sys.status (role.defaultFile sys) = .regular →
      (role.load (role.defaultFile sys)).isError = false) := by
    simp [Loaded, hoption]
  -- What follows when the file is not there, with the code that is left then.
  have hnone (hother : sys.status (role.defaultFile sys) ≠ .regular) (ec : ErrorCode)
      (hec : ec.isError = true ↔ role.Absent sys option) :
      role.Ends sys option (match role.otherwise with
        | .ok _ => .ok ec
        | .error e => .error (.thrown e)) := by
    have hdefault : role.Loaded sys option := hloaded.mpr fun hregular => absurd hregular hother
    cases hotherwise : role.otherwise with
    | ok u => exact Ends.goesOn hdefault (by simp [Throws, hotherwise]) hnamed ec hec
    | error e => exact Ends.throws hdefault ⟨hoption, hother, e, hotherwise⟩ hnamed e
  rw [use_default hoption]
  cases hstatus : sys.status (role.defaultFile sys) with
  | other =>
      simp only [isRegularFile, hstatus]
      exact hnone (by simp [hstatus]) _ (by simp [Absent, hstatus])
  | missing ec =>
      simp only [isRegularFile, hstatus]
      exact hnone (by simp [hstatus]) _ (by simp [Absent, hoption, hstatus, ec.property])
  | regular =>
      simp only [isRegularFile, hstatus, loadFile]
      cases hload : (role.load (role.defaultFile sys)).isError with
      | true => exact Ends.refused (by simp [hloaded, hstatus, hload]) hnamed _ hload
      | false =>
          exact Ends.goesOn (by simp [hloaded, hload]) (by simp [Throws, hstatus]) hnamed _
            (by simp [hload, Absent, hstatus])

theorem use_ends (sys : Platform) (option : DBOption) (role : FileRole) :
    role.Ends sys option (role.use sys option) := by
  cases hoption : getOption option role.key with
  | some fname => exact ends_of_option hoption
  | none => exact ends_of_default hoption

end FileRole

/-! All of the blocks. -/

section Verdict

variable (sys : Platform) (option : DBOption)

/-- The blocks of some files, one after the other. -/
def useAll : List FileRole → ErrorCode → Except Leave ErrorCode
  | [], ec => .ok ec
  | role :: rest, _ => role.use sys option >>= useAll rest

/-- The set-up reports success. -/
def Accepts : Except Leave ErrorCode → Prop
  | .ok ec => ec.isError = false
  | .error (.returned e) => e.isError = false
  | .error (.thrown _) => False

/-- As long as the files before were loaded, no option names something that is
there and is no regular file. -/
def NoneMisnamed : List FileRole → Prop
  | [] => True
  | role :: rest => ¬ role.Misnamed sys option ∧
      (role.Loaded sys option → ¬ role.Throws sys option → NoneMisnamed rest)

/-- If all files were loaded, none of the fallbacks throws, and the last file was
asked for or is there. -/
def LastFound (files : List FileRole) (last : FileRole) : Prop :=
  (∀ role ∈ files, role.Loaded sys option) →
    (∀ role ∈ files, ¬ role.Throws sys option) ∧ ¬ last.Absent sys option

variable {sys option}

/-- One more file in front. Its block ends the set-up, or goes on with the others. -/
theorem useAll_cons (role last : FileRole) (rest : List FileRole) (ec : ErrorCode)
    (hrest : ∀ ec, (ec.isError = true ↔ role.Absent sys option) →
      ((Accepts (useAll sys option rest ec) ↔ ∀ role ∈ rest, role.Loaded sys option) ↔
        NoneMisnamed sys option rest ∧ LastFound sys option rest last)) :
    (Accepts (useAll sys option (role :: rest) ec) ↔
        ∀ other ∈ role :: rest, other.Loaded sys option) ↔
      NoneMisnamed sys option (role :: rest) ∧ LastFound sys option (role :: rest) last := by
  have hends := role.use_ends sys option
  simp only [useAll, NoneMisnamed, LastFound, List.forall_mem_cons]
  generalize role.use sys option = outcome at hends
  cases hends with
  | goesOn hloaded hthrows hnamed ec' hec =>
      have hgoes := hrest ec' hec
      simp only [hloaded, hthrows, hnamed, not_false_eq_true, true_and, true_implies]
      exact hgoes
  | throws hloaded hthrows hnamed e =>
      change (False ↔ _) ↔ _
      simp [hloaded, hthrows, hnamed]
  | refused hloaded hnamed e he =>
      change (e.isError = false ↔ _) ↔ _
      simp [hloaded, hnamed, he]
  | accepted hloaded hnamed e he =>
      change (e.isError = false ↔ _) ↔ _
      simp [hloaded, hnamed, he]

/-- The verdict on files, when what is returned at the end is the code of the last. -/
theorem useAll_verdict (before : List FileRole) (last : FileRole) (ec : ErrorCode) :
    (Accepts (useAll sys option (before ++ [last]) ec) ↔
        ∀ role ∈ before ++ [last], role.Loaded sys option) ↔
      NoneMisnamed sys option (before ++ [last]) ∧
        LastFound sys option (before ++ [last]) last := by
  induction before generalizing ec with
  | nil =>
      apply useAll_cons
      intro ec' hec
      simp [useAll, Accepts, NoneMisnamed, LastFound, ← hec]
  | cons role rest ih =>
      apply useAll_cons
      intro ec' _
      exact ih ec'

theorem setFiles_eq (context : SslContext) :
    setFiles sys option context =
      useAll sys option (roles context (getSSLMode option)) .success := by
  have hlast (role : FileRole) : (role.use sys option >>= fun ec => .ok ec) =
      role.use sys option := by
    cases role.use sys option <;> rfl
  unfold setFiles roles
  by_cases hmode : getSSLMode option = .verifyCa ∨ getSSLMode option = .verifyFull
  · simp only [if_pos hmode, useAll, hlast]
  · simp only [if_neg hmode, useAll, hlast, pure_bind]

theorem accepts_iff (context : SslContext) :
    (∃ e, setContext sys option context = .ok e ∧ e.isError = false) ↔
      Accepts (setFiles sys option context) := by
  unfold setContext
  rcases setFiles sys option context with (e | e) | ec
  · simp [Accepts]
  · simp [Accepts]
  · simp [Accepts, Error.isError]

end Verdict

/-- The set-up of a context reports success just if every file that it should use
was loaded, exactly when no option names something that is no regular file and, if
all files were loaded, the key has an option or a file in the home directory and
the default paths can be set. -/
theorem setContext_verdict_iff (sys : Platform) (option : DBOption) (context : SslContext) :
    ((∃ e, setContext sys option context = .ok e ∧ e.isError = false) ↔
        ∀ role ∈ roles context (getSSLMode option), role.Loaded sys option) ↔
      NoneMisnamed sys option (roles context (getSSLMode option)) ∧
        LastFound sys option (roles context (getSSLMode option)) (clientPrivateKey context) := by
  rw [accepts_iff, setFiles_eq]
  unfold roles
  split
  · exact useAll_verdict [rootCert context, revocationList context, clientCertificate context]
      (clientPrivateKey context) .success
  · exact useAll_verdict [clientCertificate context] (clientPrivateKey context) .success

/-- A context that takes every file. -/
def obliging : SslContext := ⟨fun _ _ => .success, fun _ => .success, fun _ => .success, .ok ()⟩

/-- Without options and without files nothing is to be loaded, and the set-up
fails. With a directory for the client's certificate it reports success. -/
theorem setContext_verdict_wrong :
    (¬ ∃ e, setContext ⟨none, fun _ => .missing ⟨⟨2, .generic⟩, rfl⟩⟩ .empty obliging = .ok e ∧
      e.isError = false) ∧
    (∀ role ∈ roles obliging (getSSLMode .empty),
      role.Loaded ⟨none, fun _ => .missing ⟨⟨2, .generic⟩, rfl⟩⟩ .empty) ∧
    (∃ e, setContext ⟨none, fun _ => .other⟩
        (OrderedMap.empty.emplace Opt.sslCert (ascii "/etc")) obliging = .ok e ∧
      e.isError = false) ∧
    ¬ ∀ role ∈ roles obliging (getSSLMode (OrderedMap.empty.emplace Opt.sslCert (ascii "/etc"))),
      role.Loaded ⟨none, fun _ => .other⟩
        (OrderedMap.empty.emplace Opt.sslCert (ascii "/etc")) := by
  refine ⟨?_, ?_, ⟨_, rfl, rfl⟩, ?_⟩
  · intro ⟨e, he, hsuccess⟩
    cases he
    cases hsuccess
  · intro role hrole
    have hroles : role ∈ [clientCertificate obliging, clientPrivateKey obliging] := hrole
    rcases List.mem_pair.mp hroles with rfl | rfl
    · intro _
      rfl
    · intro _
      rfl
  · intro hall
    have hcert := hall (clientCertificate obliging) List.mem_cons_self
    cases hcert.1

end Lapq.Util
