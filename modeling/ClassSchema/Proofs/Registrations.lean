import ClassSchema.Proofs.Equality
import ClassSchema.Registry

namespace ClassSchema

namespace Value

variable {vs : List Value}

theorem firstUnkeyable?_eq_none : firstUnkeyable? vs = none ↔ ∀ v ∈ vs, v.unkeyable? = none := by
  induction vs with
  | nil => simp [firstUnkeyable?]
  | cons v vs ih =>
      rw [firstUnkeyable?, List.forall_mem_cons, ← ih]
      cases v.unkeyable? <;> simp

end Value

namespace TypeExpr

variable {t u v : TypeExpr} {ts : List TypeExpr}

theorem firstUnkeyable?_eq_none : firstUnkeyable? ts = Option.none ↔ ∀ t ∈ ts, t.isKey = true := by
  induction ts with
  | nil => simp [firstUnkeyable?]
  | cons t ts ih => simp [firstUnkeyable?, ih, isKey]

theorem isKey_iff : t.isKey = true ↔ t.unkeyable? = Option.none := Option.isNone_iff_eq_none

/-- How keys are compared: classes and new types by their identity, subscripts argument by argument,
and unions as sets of members, in whichever way they are written. -/
structure KeyEquality : Prop where
  refl : ∀ t : TypeExpr, t.isKey = true → t.same t = true
  symm : ∀ t u : TypeExpr, t.isKey = true → u.isKey = true → t.same u = true → u.same t = true
  trans : ∀ t u v : TypeExpr, t.isKey = true → u.isKey = true → v.isKey = true →
    t.same u = true → u.same v = true → t.same v = true
  cls : ∀ (c : ClassRef) (t : TypeExpr), same (.cls c) t = true ↔ t = .cls c
  newType : ∀ (tag : NewTypeTag) (base t : TypeExpr),
    same (.newType tag base) t = true ↔ ∃ base', t = .newType tag base'
  subscript : ∀ (head : Head) (args : List TypeExpr) (t : TypeExpr), same (.subscript head args) t = true ↔
    ∃ args', t = .subscript head args' ∧ List.Forall₂ (fun a b => a.same b = true) args args'
  union : ∀ (native : Bool) (members : List TypeExpr) (t : TypeExpr),
    same (.union native members) t = true ↔
      ∃ native' members', t = .union native' members' ∧
        SameMembers (fun a b => a.same b = true) members members'

theorem keyEquality : KeyEquality where
  refl := fun t _ => same_refl t
  symm := fun _ _ _ _ => same_symm
  trans := fun _ _ _ _ _ _ => same_trans
  cls := fun c t => by cases t <;> simp [same, @eq_comm _ c]
  newType := fun tag base t => by cases t <;> simp [same, @eq_comm _ tag]
  subscript := fun _ _ _ => same_subscript
  union := fun _ _ _ => same_union

end TypeExpr

namespace Registry

inductive Call where
  | register (t : TypeExpr) (path name : String)
  | isRegistered (t : TypeExpr)
  | entry (t : TypeExpr)
  | pathOf (t : TypeExpr)
  | nameOf (t : TypeExpr)

inductive Answer where
  | text (s : String)
  | flag (b : Bool)
  | entry (e : RegistryEntry)

namespace Call

def perform : Call → Registry → Except Fault Answer × Registry
  | register t path name, r =>
    match r.register t path name with
    | .ok r' => (.ok (.text path), r')
    | .error fault => (.error fault, r)
  | isRegistered t, r => (.ok (.flag (r.contains t)), r)
  | entry t, r => ((r.entry t).map .entry, r)
  | pathOf t, r => ((r.pathOf t).map .text, r)
  | nameOf t, r => ((r.nameOf t).map .text, r)

def answer (c : Call) (r : Registry) : Except Fault Answer := (c.perform r).1

def leaves (c : Call) (r : Registry) : Registry := (c.perform r).2

def registers : Call → Registry → Bool
  | register t path name, r => (r.register t path name).isOk
  | _, _ => false

def entryFor? (t : TypeExpr) : Call → Option RegistryEntry
  | register u path name => if u.isKey && u.same t then some ⟨path, name⟩ else none
  | _ => none

end Call

/-- The registry after the calls, from the first to the last and past those that fail. -/
def after (r : Registry) (calls : List Call) : Registry := calls.foldl (fun r c => c.leaves r) r

def run (calls : List Call) : Registry := after {} calls

def registrations : Registry → List Call → Nat
  | _, [] => 0
  | r, c :: calls => (c.registers r).toNat + registrations (c.leaves r) calls

variable {r : Registry} {t u : TypeExpr} {path name : String} {e : RegistryEntry} {calls : List Call}

theorem register_cases (r : Registry) (t : TypeExpr) (path name : String) :
    (∃ kind, t.unkeyable? = some kind ∧ r.register t path name = .error (.unkeyable kind)) ∨
    (t.isKey = true ∧ ∃ e, r.get? t = some e ∧
      r.register t path name = .error (.alreadyRegistered t e.path)) ∨
    (t.isKey = true ∧ r.get? t = none ∧
      r.register t path name = .ok ⟨(t, ⟨path, name⟩) :: r.entries⟩) := by
  cases hk : t.unkeyable? with
  | some kind => exact Or.inl ⟨kind, rfl, by simp only [register, hk]⟩
  | none =>
      have hkey : t.isKey = true := TypeExpr.isKey_iff.mpr hk
      cases hg : r.get? t with
      | some e => exact Or.inr (Or.inl ⟨hkey, e, rfl, by simp only [register, hk, hg]⟩)
      | none => exact Or.inr (Or.inr ⟨hkey, rfl, by simp only [register, hk, hg]⟩)

theorem get?_isSome : (r.get? t).isSome = true ↔ ∃ x ∈ r.entries, x.1.same t = true := by
  simp [get?]

theorem get?_cons (r : Registry) (u t : TypeExpr) (e : RegistryEntry) :
    get? ⟨(u, e) :: r.entries⟩ t = if u.same t then some e else r.get? t := by
  rw [get?, List.find?_cons]
  cases u.same t <;> rfl

theorem get?_isSome_of_same (h : t.same u = true) : (r.get? t).isSome = (r.get? u).isSome := by
  rw [Bool.eq_iff_iff, get?_isSome, get?_isSome]
  refine exists_congr fun x => and_congr_right fun _ => ⟨fun hxt => ?_, fun hxu => ?_⟩
  · exact TypeExpr.same_trans hxt h
  · exact TypeExpr.same_trans hxu (TypeExpr.same_symm h)

theorem get?_eq_none_of_same (h : t.same u = true) (hnone : r.get? t = none) : r.get? u = none := by
  have hsome := r.get?_isSome_of_same h
  rw [hnone] at hsome
  exact Option.isNone_iff_eq_none.mp (Option.isSome_eq_false_iff.mp hsome.symm)

namespace Call

variable {c : Call}

theorem leaves_of_not_registers (h : c.registers r = false) : c.leaves r = r := by
  cases c with
  | register t path name =>
      rw [registers] at h
      rw [leaves, perform]
      split
      next hok => rw [hok] at h; cases h
      next => rfl
  | isRegistered | entry | pathOf | nameOf => rfl

theorem leaves_register (h : (Call.register t path name).registers r = true) :
    t.isKey = true ∧ r.get? t = none ∧
      (Call.register t path name).leaves r = ⟨(t, ⟨path, name⟩) :: r.entries⟩ := by
  rw [registers] at h
  rcases register_cases r t path name with ⟨_, _, hr⟩ | ⟨_, _, _, hr⟩ | ⟨hkey, hnone, hr⟩
  · rw [hr] at h; cases h
  · rw [hr] at h; cases h
  · exact ⟨hkey, hnone, by rw [leaves, perform, hr]⟩

theorem registers_iff : (Call.register t path name).registers r = true ↔
    t.isKey = true ∧ r.get? t = none := by
  refine ⟨fun h => ⟨(leaves_register h).1, (leaves_register h).2.1⟩, fun ⟨hkey, hnone⟩ => ?_⟩
  simp only [registers, Registry.register, TypeExpr.isKey_iff.mp hkey, hnone]
  rfl

theorem get?_isSome_of_not_registers (ht : t.isKey = true)
    (h : (Call.register t path name).registers r = false) : (r.get? t).isSome = true := by
  cases hg : r.get? t with
  | some e => rfl
  | none =>
      rw [registers_iff.mpr ⟨ht, hg⟩] at h
      cases h

theorem size_leaves (c : Call) (r : Registry) : (c.leaves r).size = r.size + (c.registers r).toNat := by
  cases h : c.registers r with
  | false => rw [leaves_of_not_registers h]; rfl
  | true =>
      cases c with
      | register t path name =>
          rw [(leaves_register h).2.2]
          rfl
      | isRegistered | entry | pathOf | nameOf => cases h

theorem get?_leaves (c : Call) :
    (c.leaves r).get? t = (r.get? t).or (c.entryFor? t) := by
  cases c with
  | isRegistered | entry | pathOf | nameOf => exact (Option.or_none).symm
  | register u path name =>
      rw [entryFor?]
      cases h : (Call.register u path name).registers r with
      | true =>
          obtain ⟨hu, hnone, hleaves⟩ := leaves_register h
          rw [hleaves, get?_cons, hu, Bool.true_and]
          split
          next hsame => rw [get?_eq_none_of_same hsame hnone]; rfl
          next => rw [Option.or_none]
      | false =>
          rw [leaves_of_not_registers h]
          split
          next hasked =>
            rw [Bool.and_eq_true] at hasked
            have hsome : (r.get? t).isSome = true := by
              rw [← get?_isSome_of_same hasked.2]
              exact get?_isSome_of_not_registers hasked.1 h
            exact (Option.or_of_isSome hsome).symm
          next => rw [Option.or_none]

end Call

theorem size_after (r : Registry) (calls : List Call) :
    (r.after calls).size = r.size + registrations r calls := by
  induction calls generalizing r with
  | nil => rfl
  | cons c calls ih =>
      rw [registrations, ← Nat.add_assoc, ← c.size_leaves r]
      exact ih (c.leaves r)

/-- What a type is registered with after the calls: what the first of them asks for that is for an
equal one, if it was not registered before. -/
theorem get?_after (calls : List Call) :
    (r.after calls).get? t = (r.get? t).or (calls.findSome? (·.entryFor? t)) := by
  induction calls generalizing r with
  | nil => exact (Option.or_none).symm
  | cons c calls ih =>
      rw [List.findSome?_cons]
      change ((c.leaves r).after calls).get? t = _
      rw [ih, Call.get?_leaves, Option.or_assoc]
      cases c.entryFor? t <;> rfl

/-- A call among these registers a key equal to the type, with this entry. -/
def Gives (calls : List Call) (t : TypeExpr) (e : RegistryEntry) : Prop :=
  ∃ before u later, calls = before ++ .register u e.path e.name :: later ∧
    (Call.register u e.path e.name).registers (run before) = true ∧ u.same t = true

/-- What the calls leave: each key with the entry that it was first registered with. -/
structure WriteOnce (calls : List Call) : Prop where
  /-- Lookups change nothing, and neither do calls that fail. -/
  unchanged : ∀ c : Call, c.registers (run calls) = false → c.leaves (run calls) = run calls
  register_ok : ∀ t path name, (Call.register t path name).answer (run calls) = .ok (.text path) ↔
    t.isKey = true ∧ (run calls).contains t = false
  register_duplicate : ∀ t path name u taken,
    (Call.register t path name).answer (run calls) = .error (.alreadyRegistered u taken) ↔
      u = t ∧ (run calls).contains t = true ∧ (run calls).pathOf t = .ok taken
  register_unkeyable : ∀ t path name kind,
    (Call.register t path name).answer (run calls) = .error (.unkeyable kind) ↔ t.unkeyable? = some kind
  isRegistered : ∀ t, ∃ found, (Call.isRegistered t).answer (run calls) = .ok (.flag found) ∧
    (found = true ↔ t.isKey = true ∧ ∃ e, Gives calls t e)
  size : (run calls).size = registrations {} calls
  kept : ∀ t e later, t.isKey = true → Gives calls t e →
    (run (calls ++ later)).entry t = .ok e ∧
      (run (calls ++ later)).pathOf t = .ok e.path ∧ (run (calls ++ later)).nameOf t = .ok e.name

theorem get?_run (calls : List Call) :
    (run calls).get? t = calls.findSome? (·.entryFor? t) := by
  rw [run, get?_after]
  rfl

theorem entryFor?_eq_some {c : Call} : c.entryFor? t = some e ↔
    ∃ u, c = .register u e.path e.name ∧ u.isKey = true ∧ u.same t = true := by
  cases c with
  | register u path name =>
      rw [Call.entryFor?, Option.ite_none_right_eq_some, Bool.and_eq_true, Option.some_inj]
      constructor
      · rintro ⟨⟨hu, hsame⟩, rfl⟩
        exact ⟨u, rfl, hu, hsame⟩
      · rintro ⟨u', hcall, hu, hsame⟩
        cases hcall
        exact ⟨⟨hu, hsame⟩, rfl⟩
  | isRegistered | entry | pathOf | nameOf => simp [Call.entryFor?]

theorem get?_run_eq_some : (run calls).get? t = some e ↔ Gives calls t e := by
  rw [get?_run, List.findSome?_eq_some_iff]
  constructor
  · rintro ⟨before, c, later, rfl, hc, hbefore⟩
    obtain ⟨u, rfl, hu, hsame⟩ := entryFor?_eq_some.mp hc
    -- No earlier call is for an equal key, so this one finds none and registers its own.
    have hnone : (run before).get? t = none := by rwa [get?_run, List.findSome?_eq_none_iff]
    refine ⟨before, u, later, rfl, Call.registers_iff.mpr ⟨hu, ?_⟩, hsame⟩
    exact get?_eq_none_of_same (TypeExpr.same_symm hsame) hnone
  · rintro ⟨before, u, later, rfl, hregisters, hsame⟩
    obtain ⟨hu, hnone⟩ := Call.registers_iff.mp hregisters
    have hnone' : (run before).get? t = none := get?_eq_none_of_same hsame hnone
    rw [get?_run, List.findSome?_eq_none_iff] at hnone'
    exact ⟨before, _, later, rfl, entryFor?_eq_some.mpr ⟨u, rfl, hu, hsame⟩, hnone'⟩

theorem Gives.append {later : List Call} (h : Gives calls t e) : Gives (calls ++ later) t e := by
  obtain ⟨before, u, rest, rfl, hregisters, hsame⟩ := h
  exact ⟨before, u, rest ++ later, by rw [List.append_assoc, List.cons_append], hregisters, hsame⟩

theorem Call.answer_register (t : TypeExpr) (path name : String) (r : Registry) :
    (Call.register t path name).answer r = (r.register t path name).map fun _ => .text path := by
  rw [answer, perform]
  cases r.register t path name <;> rfl

theorem contains_iff : r.contains t = true ↔ t.isKey = true ∧ ∃ e, r.get? t = some e := by
  rw [contains, Bool.and_eq_true, Option.isSome_iff_exists]

theorem entry_eq_ok (ht : t.isKey = true) (h : r.get? t = some e) : r.entry t = .ok e := by
  simp only [entry, TypeExpr.isKey_iff.mp ht, h]

theorem pathOf_eq_ok (h : r.entry t = .ok e) : r.pathOf t = .ok e.path := by
  rw [pathOf, h]
  rfl

theorem nameOf_eq_ok (h : r.entry t = .ok e) : r.nameOf t = .ok e.name := by
  rw [nameOf, h]
  rfl

theorem register_ok_iff : (Call.register t path name).answer r = .ok (.text path) ↔
    t.isKey = true ∧ r.contains t = false := by
  rw [Call.answer_register]
  rcases register_cases r t path name with ⟨kind, hkind, hr⟩ | ⟨hkey, e, hget, hr⟩ | ⟨hkey, hget, hr⟩
  · simp [hr, Except.map, TypeExpr.isKey, hkind]
  · simp [hr, Except.map, contains, hkey, hget]
  · simp [hr, Except.map, contains, hkey, hget]

theorem register_duplicate_iff {v : TypeExpr} {taken : String} :
    (Call.register t path name).answer r = .error (.alreadyRegistered v taken) ↔
      v = t ∧ r.contains t = true ∧ r.pathOf t = .ok taken := by
  rw [Call.answer_register]
  rcases register_cases r t path name with ⟨kind, hkind, hr⟩ | ⟨hkey, e, hget, hr⟩ | ⟨hkey, hget, hr⟩
  · simp [hr, Except.map, contains, TypeExpr.isKey, hkind]
  · simp [hr, Except.map, contains, hkey, hget, pathOf_eq_ok (entry_eq_ok hkey hget), @eq_comm _ v]
  · simp [hr, Except.map, contains, hget]

theorem register_unkeyable_iff {kind : String} :
    (Call.register t path name).answer r = .error (.unkeyable kind) ↔ t.unkeyable? = some kind := by
  rw [Call.answer_register]
  rcases register_cases r t path name with ⟨kind', hkind, hr⟩ | ⟨hkey, e, _, hr⟩ | ⟨hkey, _, hr⟩
  · simp [hr, Except.map, hkind]
  · simp [hr, Except.map, TypeExpr.isKey_iff.mp hkey]
  · simp [hr, Except.map, TypeExpr.isKey_iff.mp hkey]

theorem writeOnce (calls : List Call) : WriteOnce calls where
  unchanged := fun c => c.leaves_of_not_registers
  register_ok := fun _ _ _ => register_ok_iff
  register_duplicate := fun _ _ _ _ _ => register_duplicate_iff
  register_unkeyable := fun _ _ _ _ => register_unkeyable_iff
  isRegistered := fun t => by
    refine ⟨(run calls).contains t, rfl, ?_⟩
    rw [contains_iff]
    exact and_congr_right fun ht => exists_congr fun e => get?_run_eq_some
  size := by rw [run, size_after, size, List.length_nil, Nat.zero_add]
  kept := fun t e later ht h => by
    have hget : (run (calls ++ later)).get? t = some e := (get?_run_eq_some).mpr h.append
    have hentry := entry_eq_ok ht hget
    exact ⟨hentry, pathOf_eq_ok hentry, nameOf_eq_ok hentry⟩

/-- In every run each key keeps what it is first registered with, under whichever equal it is called. -/
theorem run_writeOnce : TypeExpr.KeyEquality ∧ ∀ calls : List Call, WriteOnce calls :=
  ⟨TypeExpr.keyEquality, writeOnce⟩

example : (run [
    .register (.union true [.builtin .str, .builtin .noneType]) "A.note" "Note",
    .register (.union false [.builtin .noneType, .builtin .str]) "B.note" "Other"]).get?
      (.union false [.builtin .noneType, .builtin .str]) = some ⟨"A.note", "Note"⟩ := by cbv

end Registry

end ClassSchema
