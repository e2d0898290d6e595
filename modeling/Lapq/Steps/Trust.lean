import Lapq.Steps.Context
import Lapq.Steps.Environment

/-!
Whom a connection with TLS trusts, from the program's options and the environment
to the certificates that are let through.
-/

namespace Lapq.Util

section Anchors

variable {sys : Platform} {option : DBOption}

/-- The first file of a set-up that reports success was loaded, unless its option
names something that is there and is no regular file. -/
theorem first_loaded {role : FileRole} {rest : List FileRole} {ec : ErrorCode}
    (haccepts : Accepts (useAll sys option (role :: rest) ec))
    (hnamed : ¬ role.Misnamed sys option) :
    role.Loaded sys option ∧ ¬ role.Throws sys option := by
  have hends := role.use_ends sys option
  simp only [useAll] at haccepts
  generalize role.use sys option = outcome at hends haccepts
  cases hends with
  | goesOn hloaded hthrows _ _ _ => exact ⟨hloaded, hthrows⟩
  | throws _ _ _ e => exact haccepts.elim
  | refused _ _ e he =>
      change e.isError = false at haccepts
      rw [he] at haccepts
      cases haccepts
  | accepted _ hmisnamed _ _ => exact absurd hmisnamed hnamed

/-- Something to verify certificates against: the file that was asked for, the one
of the home directory, or what the system trusts. -/
inductive Anchored (sys : Platform) (option : DBOption) (context : SslContext) : Prop
  | asked (file : Str) (hoption : option.find Opt.sslRootCert = some file)
      (hregular : sys.status file = .regular)
      (hload : (context.loadVerifyFile .rootCert file).isError = false)
  | home (hoption : option.find Opt.sslRootCert = none)
      (hregular : sys.status (getDefaultFileName sys.home rootCertFile) = .regular)
      (hload : (context.loadVerifyFile .rootCert
        (getDefaultFileName sys.home rootCertFile)).isError = false)
  | system (hoption : option.find Opt.sslRootCert = none)
      (hregular : sys.status (getDefaultFileName sys.home rootCertFile) ≠ .regular)
      (hpaths : context.setDefaultVerifyPaths = .ok ())

theorem anchored_of_loaded {context : SslContext}
    (hloaded : (rootCert context).Loaded sys option)
    (hthrows : ¬ (rootCert context).Throws sys option) : Anchored sys option context := by
  cases hoption : option.find Opt.sslRootCert with
  | some file =>
      have hfile : sys.status file = .regular ∧
          (context.loadVerifyFile .rootCert file).isError = false := by
        simpa [FileRole.Loaded, getOption, rootCert, hoption] using hloaded
      exact .asked file hoption hfile.1 hfile.2
  | none =>
      by_cases hregular : sys.status (getDefaultFileName sys.home rootCertFile) = .regular
      · have hload : sys.status (getDefaultFileName sys.home rootCertFile) = .regular →
            (context.loadVerifyFile .rootCert
              (getDefaultFileName sys.home rootCertFile)).isError = false := by
          simpa [FileRole.Loaded, FileRole.defaultFile, getOption, rootCert, hoption] using hloaded
        exact .home hoption hregular (hload hregular)
      · cases hpaths : context.setDefaultVerifyPaths with
        | ok u => exact .system hoption hregular hpaths
        | error e =>
            exact absurd ⟨hoption, hregular, e, hpaths⟩ hthrows

end Anchors

/-! Modes. -/

/-- The modes that verify, by the texts of the option. -/
theorem getSSLMode_verifies_iff (option : DBOption) :
    (getSSLMode option = .verifyCa ∨ getSSLMode option = .verifyFull) ↔
      option.find Opt.sslMode = some (ascii "verify_ca") ∨
        option.find Opt.sslMode = some (ascii "verify_full") := by
  unfold getSSLMode
  cases option.find Opt.sslMode with
  | none => simp
  | some mode =>
      by_cases hca : mode = ascii "verify_ca"
      · simp [hca]
      · by_cases hfull : mode = ascii "verify_full"
        · dsimp only
          rw [if_neg hca, if_pos hfull]
          exact iff_of_true (Or.inr rfl) (Or.inr (congrArg some hfull))
        · simp [hca, hfull]

/-- Without verification the set-up looks at no root certificate and no revocation
list. -/
theorem setContext_unverified {option : DBOption} (sys : Platform) (context : SslContext)
    (hmode : ¬ (getSSLMode option = .verifyCa ∨ getSSLMode option = .verifyFull))
    (load : VerifyFile → Str → ErrorCode) (paths : Except Abort Unit) :
    setContext sys option { context with loadVerifyFile := load, setDefaultVerifyPaths := paths } =
      setContext sys option context := by
  unfold setContext
  rw [setFiles_eq, setFiles_eq]
  unfold roles
  rw [if_neg hmode, if_neg hmode]
  rfl

/-- Certificates are verified just if the program or the environment asks for
`verify_ca` or `verify_full`, in these spellings. Then a set-up that reports success
has something to verify them against, unless the root certificate is asked for by a
name of something other than a file; and both modes let through what the TLS library
does. With any other text every certificate is let through, and no root certificate
and no revocation list is looked at. -/
theorem trust_configured (host : Host) (sys : Platform) (option : DBOption)
    (context : SslContext) :
    let option' := getEnv host option
    let mode := getSSLMode option'
    let asked := Chosen host option Opt.sslMode (ascii "verify_ca") ∨
      Chosen host option Opt.sslMode (ascii "verify_full")
    (asked → (∀ preverified, verifyCertificate mode preverified = preverified) ∧
      ∀ e, setContext sys option' context = .ok e → e.isError = false →
        (∀ file, Chosen host option Opt.sslRootCert file → sys.status file ≠ .other) →
        Anchored sys option' context) ∧
    (¬ asked → (∀ preverified, verifyCertificate mode preverified = true) ∧
      ∀ load paths, setContext sys option'
          { context with loadVerifyFile := load, setDefaultVerifyPaths := paths } =
        setContext sys option' context) := by
  dsimp only
  rw [← getEnv_chosen, ← getEnv_chosen, ← getSSLMode_verifies_iff]
  constructor
  · intro hmode
    refine ⟨fun preverified => if_pos hmode, ?_⟩
    intro e hset hok hfiles
    have haccepts := (accepts_iff context).mp ⟨e, hset, hok⟩
    rw [setFiles_eq] at haccepts
    unfold roles at haccepts
    rw [if_pos hmode] at haccepts
    have hnamed : ¬ (rootCert context).Misnamed sys (getEnv host option) := by
      rintro ⟨file, hfile, hother⟩
      exact hfiles file ((getEnv_chosen host option Opt.sslRootCert file).mp hfile) hother
    obtain ⟨hloaded, hthrows⟩ := first_loaded haccepts hnamed
    exact anchored_of_loaded hloaded hthrows
  · intro hmode
    exact ⟨fun preverified => if_neg hmode, setContext_unverified sys context hmode⟩

/-- An environment that sets the mode. -/
def sslModeHost (mode : Str) : Host where
  getenv var := if var = ascii "PGSSLMODE" then some mode else none
  passwd := none

/-- A hyphen for the underscore turns verification off. -/
theorem trust_configured_hyphen :
    verifyCertificate (getSSLMode (getEnv (sslModeHost (ascii "verify_ca")) .empty)) false = false ∧
      verifyCertificate (getSSLMode (getEnv (sslModeHost (ascii "verify-ca")) .empty)) false =
        true := by
  have hcheck := trust_configured (sslModeHost (ascii "verify_ca")) ⟨none, fun _ => .other⟩ .empty
    obliging
  have hskip := trust_configured (sslModeHost (ascii "verify-ca")) ⟨none, fun _ => .other⟩ .empty
    obliging
  dsimp only at hcheck hskip
  rw [← getEnv_chosen, ← getEnv_chosen] at hcheck hskip
  exact ⟨(hcheck.1 (Or.inl (by decide +kernel))).1 false, (hskip.2 (by decide +kernel)).1 false⟩

end Lapq.Util
