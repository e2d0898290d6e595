import Lapq.Semantics.Environment

/-!
Where an option comes from once the environment was read: from the program, which
comes first, from the variable of the option, or from the process.
-/

namespace Lapq

open Util

/-- The text of a variable that is set and not empty. -/
def Host.setting (host : Host) (var : Str) : Option Str :=
  (host.getenv var).filter fun c => !c.isEmpty

/-- Where a setting comes from: the program's own options come first, then the
environment, and the user's name is also that of the process. -/
inductive Chosen (host : Host) (option : DBOption) (key v : Str) : Prop
  | given (hgiven : option.find key = some v)
  | environment (hgiven : option.find key = none) (var : Str) (hvar : (var, key) ∈ envTable)
      (hset : host.getenv var = some v) (hv : v ≠ [])
  | process (hkey : key = Opt.user) (hgiven : option.find key = none)
      (hvar : ∀ c, host.getenv (ascii "PGUSER") = some c → c = [])
      (hname : host.passwd = some v) (hv : v ≠ [])

theorem Host.setting_eq_some_iff (host : Host) (var c : Str) :
    host.setting var = some c ↔ host.getenv var = some c ∧ c ≠ [] := by
  simp [Host.setting, Option.filter_eq_some_iff]

/-! The loop. -/

/-- The variables that are read are those of the table. -/
theorem env_entries (e : Str × Str) : e ∈ env.entries ↔ e ∈ envTable := by
  have hsound : ∀ e ∈ env.entries, e ∈ envTable := by decide +kernel
  have hcomplete : ∀ e ∈ envTable, e ∈ env.entries := by decide +kernel
  exact ⟨hsound e, hcomplete e⟩

/-- No option has two variables. -/
theorem envTable_unique : ∀ e ∈ envTable, ∀ e' ∈ envTable, e.2 = e'.2 → e = e' := by
  decide +kernel

theorem find_readVariable (host : Host) (option : DBOption) (ev : Str × Str) (key : Str) :
    (readVariable host option ev).find key =
      (option.find key).or (if ev.2 = key then host.setting ev.1 else none) := by
  unfold readVariable Host.setting
  cases hvar : host.getenv ev.1 with
  | none => simp
  | some c =>
      cases hempty : c.isEmpty with
      | true => simp only [if_true, Option.filter_some, hempty, Bool.not_true, Bool.false_eq_true,
          if_false, ite_self, Option.or_none]
      | false =>
          simp only [Bool.false_eq_true, if_false, Option.filter_some, hempty, Bool.not_false,
            if_true]
          by_cases hkey : ev.2 = key
          · subst hkey
            cases hfind : option.find ev.2 with
            | some old => simp [hfind]
            | none => simp [OrderedMap.find_emplace, hfind]
          · have hother : ¬ key = ev.2 := fun h => hkey h.symm
            cases option.find ev.2 with
            | some old => simp [hkey]
            | none => simp [OrderedMap.find_emplace, hkey, hother]

/-- The first setting of an option, in the order in which the variables are read. -/
def envSetting (host : Host) (key : Str) (evs : List (Str × Str)) : Option Str :=
  evs.findSome? fun ev => if ev.2 = key then host.setting ev.1 else none

theorem find_readVariables (host : Host) (key : Str) (evs : List (Str × Str))
    (option : DBOption) :
    (evs.foldl (readVariable host) option).find key =
      (option.find key).or (envSetting host key evs) := by
  induction evs generalizing option with
  | nil => simp [envSetting]
  | cons ev evs ih =>
      have hcons : envSetting host key (ev :: evs) =
          (if ev.2 = key then host.setting ev.1 else none).or (envSetting host key evs) := by
        unfold envSetting
        rw [List.findSome?_cons]
        cases (if ev.2 = key then host.setting ev.1 else none) <;> rfl
      rw [List.foldl_cons, ih, find_readVariable, hcons, Option.or_assoc]

/-- An option is set by its own variable. -/
theorem envSetting_iff (host : Host) (key v : Str) :
    envSetting host key env.entries = some v ↔
      ∃ var, (var, key) ∈ envTable ∧ host.setting var = some v := by
  have hsound (c : Str) (hc : envSetting host key env.entries = some c) :
      ∃ var, (var, key) ∈ envTable ∧ host.setting var = some c := by
    obtain ⟨ev, hev, hset⟩ := List.exists_of_findSome?_eq_some hc
    split at hset
    · rename_i hkey
      subst hkey
      exact ⟨ev.1, (env_entries ev).mp hev, hset⟩
    · cases hset
  refine ⟨hsound v, ?_⟩
  rintro ⟨var, hvar, hset⟩
  cases hfirst : envSetting host key env.entries with
  | none =>
      have hnone := List.findSome?_eq_none_iff.mp hfirst (var, key) ((env_entries _).mpr hvar)
      rw [if_pos rfl, hset] at hnone
      cases hnone
  | some c =>
      obtain ⟨var', hvar', hset'⟩ := hsound c hfirst
      cases envTable_unique _ hvar _ hvar' rfl
      rw [← hset', hset]

/-! All settings. -/

/-- The name of the process, if it has one. -/
def Host.own (host : Host) : Option Str := host.passwd.filter fun name => !name.isEmpty

theorem find_getEnv (host : Host) (option : DBOption) (key : Str) :
    (getEnv host option).find key =
      ((option.find key).or (envSetting host key env.entries)).or
        (if key = Opt.user then host.own else none) := by
  rw [← find_readVariables]
  unfold getEnv
  dsimp only
  generalize env.entries.foldl (readVariable host) option = read
  cases huser : read.find Opt.user with
  | some old =>
      by_cases hkey : key = Opt.user
      · rw [hkey, huser]
        rfl
      · rw [if_neg hkey, Option.or_none]
  | none =>
      dsimp only
      cases hname : host.passwd with
      | none => simp [uname, Host.own, hname]
      | some name =>
          cases name with
          | nil =>
              have hown : host.own = none := by
                unfold Host.own
                rw [hname]
                rfl
              simp [uname, hname, hown]
          | cons c name =>
              have hown : host.own = some (c :: name) := by simp [Host.own, hname]
              have hu : uname host = c :: name := by simp [uname, hname]
              rw [hu, hown, if_pos (by simp), OrderedMap.find_emplace]
              change (if key = Opt.user then _ else _) = _
              by_cases hkey : key = Opt.user
              · subst hkey
                rw [if_pos rfl, if_pos rfl, huser]
                exact congrArg (fun old => some (Option.getD old (c :: name))) huser
              · rw [if_neg hkey, if_neg hkey, Option.or_none]

theorem getEnv_chosen (host : Host) (option : DBOption) (key v : Str) :
    (getEnv host option).find key = some v ↔ Chosen host option key v := by
  rw [find_getEnv]
  constructor
  · intro hfind
    cases hgiven : option.find key with
    | some old =>
        rw [hgiven] at hfind
        exact .given (hgiven.trans hfind)
    | none =>
        rw [hgiven, Option.none_or] at hfind
        cases hset : envSetting host key env.entries with
        | some c =>
            rw [hset] at hfind
            cases hfind
            obtain ⟨var, hvar, hsetting⟩ := (envSetting_iff host key _).mp hset
            obtain ⟨hget, hne⟩ := (host.setting_eq_some_iff var _).mp hsetting
            exact .environment hgiven var hvar hget hne
        | none =>
            rw [hset, Option.none_or] at hfind
            split at hfind
            · rename_i hkey
              obtain ⟨hname, hne⟩ := Option.filter_eq_some_iff.mp hfind
              refine .process hkey hgiven ?_ hname (by simpa using hne)
              intro c hc
              by_contra hcne
              have hsetting := (host.setting_eq_some_iff _ c).mpr ⟨hc, hcne⟩
              have hsome := (envSetting_iff host key c).mpr
                ⟨ascii "PGUSER", by rw [hkey]; exact List.mem_cons_self, hsetting⟩
              rw [hset] at hsome
              cases hsome
            · cases hfind
  · intro hchosen
    cases hchosen with
    | given hgiven => simp [hgiven]
    | environment hgiven var hvar hset hv =>
        have hsome := (envSetting_iff host key v).mpr
          ⟨var, hvar, (host.setting_eq_some_iff var v).mpr ⟨hset, hv⟩⟩
        simp [hgiven, hsome]
    | process hkey hgiven hvar hname hv =>
        subst hkey
        have hown : host.own = some v :=
          Option.filter_eq_some_iff.mpr ⟨hname, by simpa using hv⟩
        have hnone : envSetting host Opt.user env.entries = none := by
          rw [Option.eq_none_iff_forall_ne_some]
          intro c hc
          obtain ⟨var, hmem, hsetting⟩ := (envSetting_iff host Opt.user c).mp hc
          cases envTable_unique _ hmem (ascii "PGUSER", Opt.user) List.mem_cons_self rfl
          obtain ⟨hget, hne⟩ := (host.setting_eq_some_iff _ c).mp hsetting
          exact hne (hvar c hget)
        simp [hgiven, hnone, hown]

end Lapq
