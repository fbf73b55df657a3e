import ClassSchema.Compiler.Progress
import ClassSchema.Proofs.Ends
import ClassSchema.Proofs.Equality

namespace ClassSchema

structure Key where
  expr : TypeExpr
  isKey : expr.isKey = true

def Key.cls (c : ClassRef) : Key := ⟨.cls c, rfl⟩

namespace Trail

inductive Move where
  | push (t : Key)
  | pop

namespace Move

def perform : Move → Trailing Unit
  | push t => Trail.push t.expr
  | pop => discard Trail.pop

def leaves (m : Move) (p : Trail) : Trail :=
  match m.perform p with
  | .ok _ q | .error _ q => q

def onStack (stack : List TypeExpr) : Move → List TypeExpr
  | push t => stack ++ [t.expr]
  | pop => stack.dropLast

end Move

def moved (p : Trail) (moves : List Move) : Trail := moves.foldl (fun p m => m.leaves p) p

def run (moves : List Move) : Trail := moved {} moves

/-- Whatever is pushed is popped again, the last first, and nothing else is popped. -/
inductive Balanced : List Move → Prop
  | none : Balanced []
  | nest {t inner rest} : Balanced inner → Balanced rest → Balanced (.push t :: inner ++ .pop :: rest)

def Returns (p q : Trail) : Prop := ∃ moves, Balanced moves ∧ q = p.moved moves

/-- The trails have the same stack and the same types on them. -/
structure Alike (p q : Trail) : Prop where
  stack : q.stack = p.stack
  contains : ∀ t : TypeExpr, q.contains t = p.contains t

structure Faithful (p : Trail) : Prop where
  keys : ∀ t ∈ p.stack, t.isKey = true
  agree : ∀ t : Key, holds p.active t.expr = holds p.stack t.expr

variable {p q : Trail} {t : Key} {ts rest : List TypeExpr} {x y : TypeExpr} {moves moves' : List Move}

theorem moved_append (p : Trail) (moves moves' : List Move) :
    p.moved (moves ++ moves') = (p.moved moves).moved moves' := List.foldl_append

theorem Balanced.append (h : Balanced moves) (h' : Balanced moves') : Balanced (moves ++ moves') := by
  induction h with
  | none => exact h'
  | nest hinner _ _ ih =>
      rw [List.append_assoc, List.cons_append]
      exact .nest hinner ih

theorem Balanced.onStack (h : Balanced moves) (stack : List TypeExpr) :
    moves.foldl Move.onStack stack = stack := by
  induction h generalizing stack with
  | none => rfl
  | nest _ _ ihi ihr => simp [Move.onStack, ihi, ihr]

theorem Returns.refl (p : Trail) : Returns p p := ⟨[], .none, rfl⟩

theorem Returns.trans {r : Trail} (h : Returns p q) (h' : Returns q r) : Returns p r := by
  obtain ⟨moves, hb, rfl⟩ := h
  obtain ⟨moves', hb', rfl⟩ := h'
  exact ⟨moves ++ moves', hb.append hb', (moved_append p moves moves').symm⟩

theorem Returns.nest (t : Key) (h : Returns ((Move.push t).leaves p) q) : Returns p (Move.pop.leaves q) := by
  obtain ⟨inner, hb, rfl⟩ := h
  refine ⟨.push t :: inner ++ [.pop], .nest hb .none, ?_⟩
  rw [moved_append]
  rfl

theorem holds_iff : holds ts x = true ↔ ∃ s ∈ ts, s.same x = true := by simp [holds]

theorem holds_concat (s : TypeExpr) : holds (ts ++ [s]) x = (holds ts x || s.same x) := by simp [holds]

theorem holds_of_same (hxy : x.same y = true) (h : holds ts x = true) : holds ts y = true := by
  obtain ⟨s, hs, hsx⟩ := holds_iff.mp h
  exact holds_iff.mpr ⟨s, hs, TypeExpr.same_trans hsx hxy⟩

theorem push_ends (ht : x.isKey = true) {fails : Fault → Trail → Prop} :
    Ends (push x) p
      (fun _ q => q = ⟨p.stack ++ [x], if holds p.active x then p.active else p.active ++ [x]⟩) fails := by
  have hkey : x.unkeyable? = none := Option.isNone_iff_eq_none.mp ht
  refine Ends.bind (Ends.of_modify ?_)
  unfold activate
  rw [hkey]
  apply Ends.of_modify
  dsimp only
  split <;> rfl

theorem pop_ends (hp : p.stack = rest ++ [x]) (hx : x.isKey = true) {fails : Fault → Trail → Prop} :
    Ends pop p (fun s q => s = x ∧
      q = ⟨rest, if holds rest x then p.active else p.active.filter (fun s => !s.same x)⟩) fails := by
  have hkey : x.unkeyable? = none := Option.isNone_iff_eq_none.mp hx
  have hlast : p.stack.getLast? = some x := by simp [hp]
  have hrest : p.stack.dropLast = rest := by simp [hp]
  apply Ends.bind
  apply Ends.of_get
  rw [hlast]
  refine Ends.bind (Ends.of_modify (Ends.bind (Ends.of_get ?_)))
  rw [hrest]
  split
  next => exact Ends.of_pure ⟨rfl, rfl⟩
  next =>
    unfold deactivate
    rw [hkey]
    exact Ends.bind (Ends.of_modify (Ends.of_pure ⟨rfl, rfl⟩))

theorem pop_empty_ends (hp : p.stack = []) {post : TypeExpr → Trail → Prop} :
    Ends pop p post (fun fault q => fault = .nothingOpen ∧ q = p) := by
  apply Ends.bind
  apply Ends.of_get
  rw [hp]
  exact Ends.of_throw ⟨rfl, rfl⟩

theorem Move.leaves_of_ends {m : Move} {P : Trail → Prop}
    (h : Ends m.perform p (fun _ q => P q) (fun _ q => P q)) : P (m.leaves p) := by
  unfold Ends at h
  unfold leaves
  split at h <;> simp_all only

theorem leaves_push (p : Trail) (t : Key) : (Move.push t).leaves p =
    ⟨p.stack ++ [t.expr], if holds p.active t.expr then p.active else p.active ++ [t.expr]⟩ :=
  Move.leaves_of_ends (P := (· = _)) (push_ends t.isKey)

theorem leaves_pop (hp : p.stack = rest ++ [x]) (hx : x.isKey = true) : Move.pop.leaves p =
    ⟨rest, if holds rest x then p.active else p.active.filter (fun s => !s.same x)⟩ :=
  Move.leaves_of_ends (P := (· = _))
    (Ends.discard ((pop_ends hp hx).mono (fun _ _ h => h.2) (fun _ _ h => h)))

theorem leaves_pop_empty (hp : p.stack = []) : Move.pop.leaves p = p :=
  Move.leaves_of_ends (P := (· = p))
    (Ends.discard ((pop_empty_ends hp).mono (fun _ _ h => h) (fun _ _ h => h.2)))

namespace Faithful

theorem empty : Faithful {} where
  keys := fun _ ht => absurd ht List.not_mem_nil
  agree := fun _ => rfl

theorem push (h : Faithful p) (t : Key) : Faithful ((Move.push t).leaves p) where
  keys := by
    rw [leaves_push]
    intro s hs
    rcases List.mem_append.mp hs with hs | hs
    · exact h.keys s hs
    · exact List.mem_singleton.mp hs ▸ t.isKey
  agree := by
    intro u
    rw [leaves_push, holds_concat, ← h.agree u]
    dsimp only
    split
    next ht =>
      -- An equal of `t` is in the set, and so is an equal of whatever is the same as `t`.
      cases htu : t.expr.same u.expr with
      | false => rw [Bool.or_false]
      | true => rw [Bool.or_true, holds_of_same htu ht]
    next => exact holds_concat t.expr

theorem pop_of_concat (h : Faithful p) (hp : p.stack = rest ++ [x]) : Faithful (Move.pop.leaves p) := by
  have hmem : x ∈ p.stack := by simp [hp]
  rw [leaves_pop hp (h.keys x hmem)]
  refine ⟨fun s hs => h.keys s (by simp [hp, hs]), fun u => ?_⟩
  have hagree := h.agree u
  rw [hp, holds_concat] at hagree
  dsimp only
  split
  next hin =>
    -- The type is still on the stack, further out.
    rw [hagree]
    cases hxu : x.same u.expr with
    | false => rw [Bool.or_false]
    | true => rw [Bool.or_true, holds_of_same hxu hin]
  next hout =>
    cases hxu : x.same u.expr with
    | false =>
        rw [hxu, Bool.or_false] at hagree
        rw [← hagree, Bool.eq_iff_iff, holds_iff, holds_iff]
        constructor
        · rintro ⟨s, hs, hsu⟩
          exact ⟨s, (List.mem_filter.mp hs).1, hsu⟩
        · rintro ⟨s, hs, hsu⟩
          refine ⟨s, List.mem_filter.mpr ⟨hs, ?_⟩, hsu⟩
          have hsx : s.same x ≠ true := fun hsx => by
            rw [TypeExpr.same_euclid s hsx hsu] at hxu
            cases hxu
          simpa using hsx
    | true =>
        have hux := TypeExpr.same_symm hxu
        have hgone : holds (p.active.filter (fun s => !s.same x)) u.expr ≠ true := by
          rw [Ne, holds_iff]
          rintro ⟨s, hs, hsu⟩
          obtain ⟨hs, hsx⟩ := List.mem_filter.mp hs
          rw [TypeExpr.same_trans hsu hux] at hsx
          cases hsx
        have hnot : holds rest u.expr ≠ true := fun hin => hout (holds_of_same hux hin)
        rw [Bool.eq_false_iff.mpr hgone, Bool.eq_false_iff.mpr hnot]

theorem leaves (h : Faithful p) (m : Move) : Faithful (m.leaves p) := by
  cases m with
  | push t => exact h.push t
  | pop =>
      rcases List.eq_nil_or_concat p.stack with hp | ⟨rest, x, hp⟩
      · rw [leaves_pop_empty hp]
        exact h
      · exact h.pop_of_concat (List.concat_eq_append ▸ hp)

theorem stack_leaves (h : Faithful p) (m : Move) : (m.leaves p).stack = m.onStack p.stack := by
  cases m with
  | push t => rw [leaves_push, Move.onStack]
  | pop =>
      rcases List.eq_nil_or_concat p.stack with hp | ⟨rest, x, hp⟩
      · rw [leaves_pop_empty hp, hp]
        rfl
      · rw [List.concat_eq_append] at hp
        have hx : x ∈ p.stack := by simp [hp]
        rw [leaves_pop hp (h.keys x hx), hp, Move.onStack, List.dropLast_concat]

theorem moved (h : Faithful p) (moves : List Move) :
    Faithful (p.moved moves) ∧ (p.moved moves).stack = moves.foldl Move.onStack p.stack := by
  induction moves generalizing p with
  | nil => exact ⟨h, rfl⟩
  | cons m moves ih =>
      rw [List.foldl_cons, ← h.stack_leaves m]
      exact ih (h.leaves m)

theorem contains_iff (h : Faithful p) :
    p.contains x = true ↔ x.isKey = true ∧ ∃ s ∈ p.stack, s.same x = true := by
  rw [contains, Bool.and_eq_true, ← holds_iff]
  exact and_congr_right fun hkey => by rw [h.agree ⟨x, hkey⟩]

theorem alike (h : Faithful p) (h' : Faithful q) (hs : q.stack = p.stack) : Alike p q where
  stack := hs
  contains := fun t => by rw [Bool.eq_iff_iff, h'.contains_iff, h.contains_iff, hs]

theorem returns (h : Faithful p) (hr : Returns p q) : Faithful q ∧ Alike p q := by
  obtain ⟨moves, hb, rfl⟩ := hr
  obtain ⟨h', hs⟩ := h.moved moves
  exact ⟨h', h.alike h' (hs.trans (hb.onStack p.stack))⟩

end Faithful

/-- The names of the types with the separator between them, or why one of the types has no name. -/
def Joins (M : Model) (separator : String) (ts : List TypeExpr) : Except Fault String → Prop
  | .ok text => ∃ names, List.Forall₂ (fun t name => M.requireName t = .ok name) ts names ∧
      text = separator.intercalate names
  | .error fault => ∃ t ∈ ts, M.requireName t = .error fault

theorem requireNames_cases (M : Model) (ts : List TypeExpr) :
    (∃ names, ts.mapM M.requireName = .ok names ∧
      List.Forall₂ (fun t name => M.requireName t = .ok name) ts names) ∨
    ∃ fault, ts.mapM M.requireName = .error fault ∧ ∃ t ∈ ts, M.requireName t = .error fault := by
  induction ts with
  | nil => exact .inl ⟨[], rfl, .nil⟩
  | cons t ts ih =>
      rw [List.mapM_cons]
      cases ht : M.requireName t with
      | error fault => exact .inr ⟨fault, rfl, t, List.mem_cons_self, ht⟩
      | ok name =>
          rcases ih with ⟨names, hnames, hall⟩ | ⟨fault, hfault, u, hu, hnone⟩
          · rw [hnames]
            exact .inl ⟨name :: names, rfl, .cons ht hall⟩
          · rw [hfault]
            exact .inr ⟨fault, rfl, u, List.mem_cons_of_mem t hu, hnone⟩

theorem joins (M : Model) (separator : String) (ts : List TypeExpr) :
    Joins M separator ts (ts.mapM M.requireName >>= fun names => pure (separator.intercalate names)) := by
  rcases requireNames_cases M ts with ⟨names, hnames, hall⟩ | ⟨fault, hfault, hnone⟩
  · rw [hnames]
    exact ⟨names, hall, rfl⟩
  · rw [hfault]
    exact hnone

theorem chain_of_first {outer inner : List TypeExpr} {first : TypeExpr}
    (hp : p.stack = outer ++ first :: inner) (hfirst : first.same x = true)
    (hout : ∀ s ∈ outer, s.same x = false) : p.chain x = .ok (first :: inner ++ [x]) := by
  have hskip : p.stack.dropWhile (fun s => !s.same x) = first :: inner := by
    rw [hp, List.dropWhile_append_of_pos fun s hs => by rw [hout s hs]; rfl,
      List.dropWhile_cons_of_neg (by rw [hfirst]; decide)]
  rw [chain, hskip]

theorem exists_first (h : ∃ s ∈ p.stack, s.same x = true) : ∃ outer first inner,
    p.stack = outer ++ first :: inner ∧ first.same x = true ∧ ∀ s ∈ outer, s.same x = false := by
  obtain ⟨first, hfirst⟩ := Option.isSome_iff_exists.mp (List.find?_isSome.mpr h)
  obtain ⟨hsame, outer, inner, hp, hout⟩ := List.find?_eq_some_iff_append.mp hfirst
  exact ⟨outer, first, inner, hp, hsame, fun s hs => by simpa using hout s hs⟩

end Trail

namespace Compiling

open Trail

variable {α β : Type} {t : Key} {s : Progress} {body : Compiling α}

/-- The step, if it returns as well as if it fails, has popped what it has pushed and nothing else. -/
def Balances (body : Compiling α) (s : Progress) : Prop :=
  Ends body s (fun _ s' => Returns s.trail s'.trail) (fun _ s' => Returns s.trail s'.trail)

def entered (t : Key) (s : Progress) : Progress := { s with trail := (Move.push t).leaves s.trail }

def left (s : Progress) : Progress := { s with trail := Move.pop.leaves s.trail }

theorem within_key_ends (hs : Faithful s.trail) {post : α → Progress → Prop}
    {fails : Fault → Progress → Prop}
    (h : Ends body (entered t s) (fun a s' => Returns (entered t s).trail s'.trail ∧ post a (left s'))
      (fun fault s' => Returns (entered t s).trail s'.trail ∧ fails fault (left s'))) :
    Ends (within t.expr body) s post fails := by
  -- The type is on the trail at the end of the step, so that there is something to leave.
  have hpop : ∀ s' : Progress, Returns (entered t s).trail s'.trail →
      Ends Trail.pop s'.trail (fun _ q => { s' with trail := q } = left s') (fun _ _ => False) := by
    intro s' hr
    have hstack : s'.trail.stack = s.trail.stack ++ [t.expr] := by
      rw [((hs.push t).returns hr).2.stack, leaves_push]
    refine (pop_ends hstack t.isKey).mono (fun _ q hq => ?_) (fun _ _ h => h)
    rw [left, leaves_pop hstack t.isKey, hq.2]
  apply Ends.bind
  apply onTrail_ends
  refine Ends.mono (push_ends t.isKey) (fun _ q hq => ?_) (fun _ _ (h : False) => h.elim)
  rw [hq, ← leaves_push]
  refine thenLeave_ends (h.mono (fun a s' ⟨hr, hpost⟩ => ?_) (fun fault s' ⟨hr, hfails⟩ => ?_))
  · exact onTrail_ends ((hpop s' hr).mono (fun _ q hq => hq ▸ hpost) (fun _ _ h => h.elim))
  · exact onTrail_ends ((hpop s' hr).mono (fun _ q hq => hq ▸ hfails) (fun _ _ h => h.elim))

theorem Balances.within (hs : Faithful s.trail) (h : Balances body (entered t s)) :
    Balances (within t.expr body) s :=
  within_key_ends hs (h.mono (fun _ _ hr => ⟨hr, hr.nest t⟩) (fun _ _ hr => ⟨hr, hr.nest t⟩))

/-- Entering a type for the step does what the step does inside it, and the trail is as it was. -/
def Restores (t : Key) (body : Compiling α) (s : Progress) : Prop :=
  Ends (within t.expr body) s
    (fun a s' => ∃ inside, body (entered t s) = .ok a inside ∧
      s' = { inside with trail := s'.trail } ∧ Alike s.trail s'.trail)
    (fun fault s' => ∃ inside, body (entered t s) = .error fault inside ∧
      s' = { inside with trail := s'.trail } ∧ Alike s.trail s'.trail)

theorem Balances.restores (hs : Faithful s.trail) (h : Balances body (entered t s)) : Restores t body s := by
  have hleft : ∀ inside, Returns (entered t s).trail inside.trail →
      left inside = { inside with trail := (left inside).trail } ∧ Alike s.trail (left inside).trail :=
    fun _ hr => ⟨rfl, (hs.returns (hr.nest t)).2⟩
  apply within_key_ends hs
  unfold Balances Ends at h
  unfold Ends
  cases hb : body (entered t s) with
  | ok a inside =>
      rw [hb] at h
      exact ⟨h, inside, rfl, hleft inside h⟩
  | error fault inside =>
      rw [hb] at h
      exact ⟨h, inside, rfl, hleft inside h⟩

end Compiling

namespace Trail

structure Tracks (M : Model) (moves : List Move) (p : Trail) : Prop where
  stack : p.stack = moves.foldl Move.onStack []
  contains : ∀ x : TypeExpr, p.contains x = true ↔ x.isKey = true ∧ ∃ s ∈ p.stack, s.same x = true
  enters : ∀ {α : Type} (t : Key) (body : Compiling α) (s : Progress), s.trail = p →
    Compiling.Balances body (Compiling.entered t s) →
    Compiling.Restores t body s ∧ Compiling.Balances (Compiling.within t.expr body) s
  chain : ∀ t : Key, p.contains t.expr = true → ∃ outer first inner,
    p.stack = outer ++ first :: inner ∧ first.same t.expr = true ∧
    (∀ s ∈ outer, s.same t.expr = false) ∧
    p.chain t.expr = .ok (first :: inner ++ [t.expr]) ∧
    Joins M " -> " (first :: inner ++ [t.expr]) (p.chainText M t.expr)
  path : Joins M "." p.stack (p.path M)

theorem run_faithful (moves : List Move) : Faithful (run moves) := (Faithful.empty.moved moves).1

/-- After any pushes and pops, whatever is pushed twice and whatever is popped too often, the trail
tells which types are on its stack, and entering a type and leaving it again changes nothing. -/
theorem run_tracks (M : Model) (moves : List Move) : Tracks M moves (run moves) where
  stack := (Faithful.empty.moved moves).2
  contains := fun _ => (run_faithful moves).contains_iff
  enters := fun _ _ _ hs hb =>
    ⟨Compiling.Balances.restores (hs ▸ run_faithful moves) hb,
      Compiling.Balances.within (hs ▸ run_faithful moves) hb⟩
  chain := by
    intro t ht
    obtain ⟨-, hmem⟩ := (run_faithful moves).contains_iff.mp ht
    obtain ⟨outer, first, inner, hp, hfirst, hout⟩ := exists_first hmem
    have hchain := chain_of_first hp hfirst hout
    refine ⟨outer, first, inner, hp, hfirst, hout, hchain, ?_⟩
    rw [chainText, hchain]
    exact joins M " -> " _
  path := joins M "." _

/-- A type that has been pushed twice and popped once is still on the trail. -/
example : (run [.push (.cls (.declared 0)), .push (.cls (.declared 1)), .push (.cls (.declared 0)),
    .pop]).contains (.cls (.declared 0)) = true := by cbv

end Trail

end ClassSchema
