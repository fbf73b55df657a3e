import ClassSchema.Proofs.Frames
import ClassSchema.Proofs.Trips

namespace ClassSchema

theorem Trail.path_along_eq (M : Model) (path : List ClassRef) :
    (along path).path M = .ok (".".intercalate (path.reverse.map M.simpleName)) := by
  simp only [Trail.path, along, ← List.map_reverse, requireName_cls]
  rfl

def Model.tripText (M : Model) (root : ClassRef) (legs : List Leg) : String :=
  ".".intercalate ((root :: legs.map Leg.target).map M.simpleName)

namespace Compiler

open Compiling

variable (M : Model) (o : Options) (root : ClassRef)

/-- What is registered are classes, each with the path of the first trip to it. -/
def Logged (r : Registry) : Prop :=
  ∀ e ∈ r.entries, ∃ d legs, e.1 = .cls d ∧ M.FirstTrip root legs d ∧ e.2.path = M.tripText root legs

def Logs {α : Type} (step : Compiling α) (s : Progress) : Prop :=
  Ends step s (fun _ s' => Logged M root s'.registry) (fun _ _ => True)

/-- The state is at a place of the innermost open class, which has been come to by a trip through the
open classes. -/
structure Standing (legs : List Leg) (c : ClassRef) (path : List ClassRef) (place : Step)
    (ps : List Piece) (pending : List OpenMessage) (s : Progress) : Prop where
  way : M.Way root (c :: path)
  state : At M o root (c :: path) ps pending s
  trip : M.Trip root legs c
  opened : root :: legs.map Leg.target = (c :: path).reverse
  passed : M.Passed ps root legs
  behind : M.Behind ps c place
  logged : Logged M root s.registry

def NestsLogged (nested : TypeExpr → Compiling String) (legs : List Leg) (c : ClassRef)
    (path : List ClassRef) : Prop :=
  ∀ place d ps pending s, Standing M o root legs c path place ps pending s → M.Points c place d →
    M.isComposite d = true → d ∉ c :: path → .message d ∉ parts ps → Logs M root (nested (.cls d)) s

variable {M : Model} {o : Options} {root c d e : ClassRef} {path : List ClassRef} {ps ps' : List Piece}
  {pending : List OpenMessage} {s s' : Progress} {legs : List Leg} {place : Step} {f : Field} {t : TypeExpr}
  {nested : TypeExpr → Compiling String} {enter : List Piece → ClassRef → List Piece} {i : Nat}

section Logs

variable {α β : Type} {step : Compiling α} {next : α → Compiling β}

theorem Logs.of_reads (h : ReadsOnly step s) (hs : Logged M root s.registry) : Logs M root step s :=
  h.mono (fun _ _ h => h ▸ hs) (fun _ _ _ => trivial)

theorem Logs.read (h : ReadsOnly step s) (hn : ∀ a, Logs M root (next a) s) : Logs M root (step >>= next) s :=
  Ends.bind (h.mono (fun a _ hs => hs ▸ hn a) (fun _ _ _ => trivial))

theorem Logs.bind (h : Logs M root step s)
    (hn : ∀ a s', Logged M root s'.registry → Logs M root (next a) s') : Logs M root (step >>= next) s :=
  Ends.andThen h hn

theorem Logs.bindTo {mid : α → Progress → Prop} {fails : Fault → Progress → Prop}
    (h : Logs M root step s) (hm : Ends step s mid fails)
    (hn : ∀ a s', mid a s' → Logged M root s'.registry → Logs M root (next a) s') :
    Logs M root (step >>= next) s :=
  Ends.andThen ((hm.and h).mono (fun _ _ h => h) (fun _ _ _ => trivial)) (fun a s' h => hn a s' h.1 h.2)

theorem Logs.discard (h : Logs M root step s) : Logs M root (Functor.discard step) s := Ends.discard h

theorem Logs.onDraft {step : Drafting α} (hs : Logged M root s.registry) : Logs M root (onDraft step) s := by
  apply onDraft_ends
  unfold Ends
  split
  next => exact hs
  next => trivial

end Logs

theorem targets_concat (root : ClassRef) (legs : List Leg) (place : Step) (d : ClassRef) :
    root :: (legs ++ [Leg.mk place d]).map Leg.target = root :: legs.map Leg.target ++ [d] := by
  rw [List.map_append, List.cons_append]
  rfl

namespace Standing

theorem firstTrip (h : Standing M o root legs c path place ps pending s) (hd : M.Points c place d)
    {p : Part} (hp : M.part? (.cls d) = some p) (hout : d ∉ c :: path) (hnew : p ∉ parts ps) :
    M.FirstTrip root (legs ++ [⟨place, d⟩]) d := by
  refine (h.passed.concat h.trip h.behind).firstTrip h.state.sound (h.trip.concat hd) ?_ hp hnew
  rwa [targets_concat, List.dropLast_concat, h.opened, List.mem_reverse]

theorem opened_concat (h : Standing M o root legs c path place ps pending s) (d : ClassRef) :
    root :: (legs ++ [Leg.mk place d]).map Leg.target = (d :: c :: path).reverse := by
  rw [targets_concat, h.opened, List.reverse_cons (a := d)]

end Standing

theorem registerHere_logs (hs : s.trail = Trail.along path) {name : String}
    (hopen : root :: legs.map Leg.target = path.reverse) (hd : M.FirstTrip root legs d)
    (hlog : Logged M root s.registry) : Logs M root (registerHere M (.cls d) name) s := by
  have htext : s.trail.path M = .ok (M.tripText root legs) := by
    rw [hs, Trail.path_along_eq, ← hopen, Model.tripText]
  refine Ends.bind (Ends.of_get (Ends.bind ?_))
  rw [htext]
  refine Ends.of_pure (Ends.bind (Ends.of_get (Ends.bind ?_)))
  cases hr : s.registry.register (.cls d) (M.tripText root legs) name with
  | error fault => exact trivial
  | ok r =>
      obtain ⟨_, rfl⟩ := Registry.register_ok hr
      exact Ends.of_pure (Ends.of_modify (List.forall_mem_cons.mpr ⟨⟨d, legs, rfl, hd, rfl⟩, hlog⟩))

theorem new_of_unregistered (h : At M o root path ps pending s) {p : Part} (hp : M.part? (.cls d) = some p)
    (hreg : s.registry.contains (.cls d) = false) : p ∉ parts ps := fun hmem => by
  rw [(h.contains_cls d).mpr (met_of_mem hp hmem)] at hreg
  cases hreg

theorem ensureEnum_logs (hroot : M.isComposite root = true)
    (h : Standing M o root legs c path place ps pending s) (hd : M.Points c place e)
    (he : M.isEnumClass e = true) : Logs M root (ensureEnum M o (.cls e)) s := by
  have hpart := Model.part?_enum he
  have hout : e ∉ c :: path := by
    intro hp
    rw [Model.part?_composite (h.way.composite hroot e hp)] at hpart
    cases hpart
  unfold ensureEnum
  apply Ends.bind
  apply isRegistered_ends
  cases hreg : s.registry.contains (.cls e) with
  | true => exact Logs.of_reads (ReadsOnly.registeredName _ s) h.logged
  | false =>
      have hnew := new_of_unregistered h.state hpart hreg
      have hnot : ¬ Met M (c :: path) ps e := by
        rw [← h.state.contains_cls, hreg]
        exact Bool.false_ne_true
      have hname : className M o root e = Name.enumName (M.simpleName e) o.affix := className_of_enum he
      obtain ⟨x, hx, hxt, _⟩ := Model.describeClass_enum he
      simp only [Model.describe, hx, fromResult_ok, hxt, ← hname]
      have htrail : ({ s with trail := Trail.along (e :: c :: path) } : Progress).trail =
          Trail.along (e :: c :: path) := rfl
      have hhere : Ends (registerHere M (.cls e) (className M o root e)) _ _ (fun _ _ => False) :=
        registerHere_ends htrail h.state.registry hnot
      refine Ends.bind (within_ends h.state.trail hout ((hhere.and (registerHere_logs htrail
        (h.opened_concat e) (h.firstTrip hd hpart hout hnew) h.logged)).mono ?_ (fun _ _ hf => hf.1.elim)))
      rintro _ _ ⟨⟨r, rfl, _⟩, hlog⟩
      exact ⟨rfl, Logs.bind (.onDraft hlog) (fun _ _ hlog => .of_reads rfl hlog)⟩

theorem nested_logs (h : Standing M o root legs c path place ps pending s)
    (hn : NestsLogged M o root nested legs c path) (hd : M.Points c place d)
    (hcomp : M.isComposite d = true) (hout : d ∉ c :: path)
    (hreg : s.registry.contains (.cls d) = false) : Logs M root (nested (.cls d)) s :=
  hn place d ps pending s h hd hcomp hout
    (new_of_unregistered h.state (Model.part?_composite hcomp) hreg)

theorem elementName_logs (hroot : M.isComposite root = true)
    (h : Standing M o root legs c path place ps pending s) (hn : NestsLogged M o root nested legs c path)
    (hf : f ∈ M.fieldsOf c) (hu : f.Uses t)
    (hpoint : ∀ d, t = .cls d → M.isComposite d = true ∨ M.isEnumClass d = true → M.Points c place d) :
    Logs M root (elementName M o nested f t) s := by
  unfold elementName
  split
  next => exact .of_reads (failField_reads f _ s) h.logged
  next hcont =>
    split
    next => exact .of_reads rfl h.logged
    next hany =>
      split
      next => exact .of_reads rfl h.logged
      next hkey =>
        split
        next he =>
          obtain ⟨e, rfl⟩ := TypeExpr.exists_of_isClass (Model.isClass_of_isEnum he)
          exact Logs.bind (ensureEnum_logs hroot h (hpoint e rfl (.inr he)) he)
            (fun _ _ hlog => .of_reads rfl hlog)
        next he =>
          split
          next => exact .of_reads (failField_reads f _ s) h.logged
          next hclass =>
            rw [Bool.not_eq_true, Bool.not_eq_false'] at hclass
            obtain ⟨d, rfl⟩ := TypeExpr.exists_of_isClass hclass
            have hcomp : M.isComposite d = true := by
              simp_all [Model.isComposite, Model.isEnum, TypeExpr.isScalar]
            refine Logs.bindTo (.of_reads (checkCycle_reads f _ s) h.logged)
              (checkCycle_ends h.way h.state hf hu hcomp) ?_
            rintro _ s ⟨rfl, hout⟩ -
            apply Ends.bind
            apply isRegistered_ends
            cases hreg : s.registry.contains (.cls d) with
            | true => exact Logs.read (ReadsOnly.registeredName _ s) (fun _ => .of_reads rfl h.logged)
            | false =>
                refine Logs.bind (nested_logs h hn (hpoint d rfl (.inl hcomp)) hcomp hout hreg).discard ?_
                exact fun _ s' hlog => Logs.read (ReadsOnly.registeredName _ s') (fun _ => .of_reads rfl hlog)

theorem resolveElement_logs (hroot : M.isComposite root = true)
    (h : Standing M o root legs c path place ps pending s) (hn : NestsLogged M o root nested legs c path)
    (hf : (M.fieldsOf c)[place.field]? = some f) {operand : Option TypeExpr}
    (ho : f.operands[place.operand]? = some operand) :
    Logs M root (resolveElement M o nested f operand) s := by
  unfold resolveElement
  split
  next => exact .of_reads (failField_reads f _ s) h.logged
  next x =>
    split
    next => exact .of_reads (failField_reads f _ s) h.logged
    next t hx =>
      refine elementName_logs hroot h hn (List.mem_of_getElem? hf) ⟨x, List.mem_of_getElem? ho, hx⟩ ?_
      rintro d rfl hd
      exact ⟨f, x, hf, ho, hx, hd⟩

theorem Standing.next {i : Nat} (h : Standing M o root legs c path ⟨i, 0⟩ ps pending s)
    (hgrown : Grown (c :: path) [] ps ps') (hat : At M o root (c :: path) ps' pending s')
    (hlog : Logged M root s'.registry) (hf : (M.fieldsOf c)[i]? = some f) {operand : Option TypeExpr}
    (ho : f.operands[0]? = some operand) (hres : M.Resolved ps' operand) :
    Standing M o root legs c path ⟨i, 1⟩ ps' pending s' where
  way := h.way
  state := hat
  trip := h.trip
  opened := h.opened
  passed := h.passed.mono hgrown.suffix
  logged := hlog
  behind := by
    intro t d hd hb
    rcases Step.before_next.mp hb with hb | rfl
    · exact (h.behind t d hd hb).mono hgrown.suffix
    · obtain ⟨f', x, hf', hx, hxd, _⟩ := hd
      rw [hf] at hf'
      cases hf'
      rw [ho] at hx
      cases hx
      obtain ⟨_, u, heq, hu, _, hst⟩ := hres
      cases heq
      rw [hxd] at hu
      cases hu
      exact hst

theorem buildEntry_logs (hroot : M.isComposite root = true)
    (h : Standing M o root legs c path ⟨i, 0⟩ ps pending s) (hn : NestsLogged M o root nested legs c path)
    (hnests : Nests M o root nested enter (c :: path)) (hf : (M.fieldsOf c)[i]? = some f)
    (hm : f.shape = .map) : Logs M root (buildEntry M o nested f) s := by
  have hops := Field.operands_of_map hm
  have hkey : f.operands[0]? = some f.key := by rw [hops]; rfl
  have helement : f.operands[1]? = some f.element := by rw [hops]; rfl
  unfold buildEntry
  split
  next => exact .of_reads (failField_reads f _ s) h.logged
  next =>
    refine Logs.bindTo (resolveElement_logs hroot h hn hf hkey) (resolveElement_ends hroot h.way h.state
      hnests (List.mem_of_getElem? hf) (List.mem_of_getElem? hkey)) ?_
    rintro _ s₁ ⟨_, ps₁, hgrown, h₁, _, hres⟩ hlog₁
    refine Logs.bind (resolveElement_logs hroot (h.next hgrown h₁ hlog₁ hf hkey hres) hn hf helement) ?_
    intro _ s₂ hlog₂
    refine Logs.read (ReadsOnly.registeredName _ s₂) (fun _ => ?_)
    exact Logs.bind (.onDraft hlog₂) (fun _ _ hlog => .of_reads rfl hlog)

theorem points_declared (hf : (M.fieldsOf c)[i]? = some f) (hops : f.operands = [some f.declared])
    (hd : f.declared = .cls d) (hdoc : M.isComposite d = true ∨ M.isEnumClass d = true) :
    M.Points c ⟨i, 0⟩ d :=
  ⟨f, .cls d, hf, by rw [hops, hd]; rfl, Model.unwrap_cls d, hdoc⟩

theorem classifyField_logs (hroot : M.isComposite root = true)
    (h : Standing M o root legs c path ⟨i, 0⟩ ps pending s) (hn : NestsLogged M o root nested legs c path)
    (hnests : Nests M o root nested enter (c :: path)) (hf : (M.fieldsOf c)[i]? = some f) (ordinal : Int) :
    Logs M root (classifyField M o nested f ordinal) s := by
  have hmem : f ∈ M.fieldsOf c := List.mem_of_getElem? hf
  unfold classifyField
  extract_lets rest
  -- A composite class is not open when it comes to the rest.
  have hrest : (∀ d, f.shape = .composite → f.declared = .cls d → d ∉ c :: path) →
      Logs M root (rest ()) s := by
    intro hout
    apply Ends.bind
    apply isRegistered_ends
    split
    next => exact Logs.read (knownName?_reads f.declared s) (fun _ => .onDraft h.logged)
    next hnot =>
      rw [Bool.or_eq_true, not_or, decide_eq_true_iff, Bool.not_eq_true] at hnot
      cases hs : f.shape with
      | enum =>
          have hops : f.operands = [some f.declared] := by simp only [Field.operands, hs]
          obtain ⟨e, hd, he⟩ := Model.class_of_enum hmem hs
          rw [hd]
          exact Logs.bind (ensureEnum_logs hroot h (points_declared hf hops hd (.inr he)) he)
            (fun _ _ hlog => .onDraft hlog)
      | list | array | collection =>
          have ho : f.operands[0]? = some f.element := by simp only [Field.operands, hs]; rfl
          exact Logs.bind (resolveElement_logs hroot h hn hf ho) (fun _ _ hlog => .onDraft hlog)
      | map => exact Logs.bind (buildEntry_logs hroot h hn hnests hf hs) (fun _ _ hlog => .onDraft hlog)
      | scalar => exact absurd hs hnot.1
      | composite =>
          have hops : f.operands = [some f.declared] := by simp only [Field.operands, hs]
          obtain ⟨d, hd, hcomp⟩ := Model.class_of_composite hmem hs
          have hpoint := points_declared hf hops hd (.inl hcomp)
          have hout := hout d hs hd
          rw [hd] at hnot ⊢
          refine Logs.bind (nested_logs h hn hpoint hcomp hout hnot.2).discard (fun _ s' hlog => ?_)
          exact Logs.read (ReadsOnly.fromResult _ s') (fun _ => .onDraft hlog)
  split
  next hs =>
    obtain ⟨d, hd, hcomp⟩ := Model.class_of_composite hmem hs
    have hu : f.Uses (.cls d) :=
      ⟨.cls d, by simp only [Field.operands, hs, hd, List.mem_singleton], Model.unwrap_cls d⟩
    rw [hd]
    refine Ends.andThen ((checkCycle_ends h.way h.state hmem hu hcomp).mono (fun _ _ h => h)
      (fun _ _ _ => trivial)) ?_
    rintro _ s ⟨rfl, hout⟩
    refine hrest (fun d' _ hd' => ?_)
    cases hd.symm.trans hd'
    exact hout
  next hs => exact hrest (fun _ hs' => absurd hs' hs)

theorem behind_of_settled {done fs : List Field} (hfields : M.fieldsOf c = done ++ fs)
    (h : ∀ f ∈ done, Settled M ps c f) : M.Behind ps c ⟨done.length, 0⟩ := by
  intro t d hd hb
  obtain ⟨f, hf, _, hu⟩ := hd.exists_uses
  have hlt : t.field < done.length := by simpa [Step.Before] using hb
  rw [hfields, List.getElem?_append_left hlt] at hf
  exact (h f (List.mem_of_getElem? hf)).stands hu

theorem classifyFields_logs (hroot : M.isComposite root = true) {m : OpenMessage} {rest : List OpenMessage}
    (hn : NestsLogged M o root nested legs c path) (hnests : Nests M o root nested enter (c :: path))
    (fs : List Field) {done : List Field} (hfields : M.fieldsOf c = done ++ fs)
    (h : Standing M o root legs c path ⟨done.length, 0⟩ ps (m :: rest) s)
    (hdone : Filled M o root c done m.lines ps) (hnd : (fs.map Field.name).Nodup)
    (hnew : ∀ f ∈ fs, .entry c f.name ∉ parts ps) :
    Logs M root (classifyFields M o nested (done.length + 1) fs) s := by
  induction fs generalizing s ps m done with
  | nil => exact .of_reads rfl h.logged
  | cons f fs ih =>
      have hf : (M.fieldsOf c)[done.length]? = some f := by simp [hfields]
      obtain ⟨hnew, hnews⟩ := List.forall_mem_cons.mp hnew
      obtain ⟨hout, hnd⟩ := List.nodup_cons.mp hnd
      refine Logs.bindTo (classifyField_logs hroot h hn hnests hf _) (classifyField_ends hroot h.way h.state
        hnests (List.mem_of_getElem? hf) hnew) ?_
      rintro _ s₁ ⟨ps₁, hgrown₁, h₁, _, hset⟩ hlog₁
      have hfields₁ : M.fieldsOf c = (done ++ [f]) ++ fs := by simp [hfields]
      have hdone₁ := Filled.field hdone hgrown₁.suffix hset
      have hlen : (done ++ [f]).length = done.length + 1 := List.length_append
      -- The next field stands behind all that this one has led to.
      have hnews₁ := hgrown₁.entries_new hout hnews
      have hbehind := behind_of_settled hfields₁ hdone₁.settled
      have hrest := ih hfields₁ ⟨h.way, h₁, h.trip, h.opened, h.passed.mono hgrown₁.suffix, hbehind, hlog₁⟩
        hdone₁ hnd hnews₁
      rw [hlen] at hrest
      exact hrest

theorem insideClass_logs {x : Description} (hroot : M.isComposite root = true)
    (hway : M.Way root (c :: path)) (hn : NestsLogged M o root nested legs c path)
    (hnests : Nests M o root nested enter (c :: path)) (hx : M.describeClass c = .ok x)
    (hnew : .message c ∉ parts ps) (h : At M o root path ps pending s) (htrip : M.Trip root legs c)
    (hopen : root :: legs.map Leg.target = (c :: path).reverse) (hpassed : M.Passed ps root legs)
    (hlog : Logged M root s.registry) :
    Logs M root (do
        registerHere M (.cls c) (messageName M o root c)
        onDraft (Draft.beginMessage (messageName M o root c) true)
        classifyFields M o nested 1 x.fields
        discard (onDraft Draft.endMessage))
      { s with trail := Trail.along (c :: path) } := by
  have hcomp : M.isComposite c = true := hway.composite hroot c List.mem_cons_self
  have hout : c ∉ path := (List.nodup_cons.mp hway.nodup).1
  have htrail : ({ s with trail := Trail.along (c :: path) } : Progress).trail =
      Trail.along (c :: path) := rfl
  have hfields : M.fieldsOf c = [] ++ x.fields := Model.fieldsOf_of_describeClass hx
  have hfirst : M.FirstTrip root legs c := by
    refine hpassed.firstTrip h.sound htrip ?_ (Model.part?_composite hcomp) hnew
    rwa [hopen, List.reverse_cons, List.dropLast_concat, List.mem_reverse]
  rw [← className_of_composite hcomp]
  refine Logs.bindTo (registerHere_logs htrail hopen hfirst hlog)
    (registerHere_ends htrail h.registry (not_met hroot hway hnew) : Ends _ _ _ (fun _ _ => False)) ?_
  rintro _ _ ⟨r, rfl, hr⟩ hlog
  refine Ends.bind (onDraft_ends ((Draft.beginMessage_ends h.draft _ true).mono ?_ (fun _ _ hf => hf)))
  rintro _ d ⟨hd, hb, hp⟩
  rw [h.pending] at hp
  have hat := h.begin hnew hr hd hb hp
  have hentries : ∀ f ∈ x.fields, .entry c f.name ∉ parts ps := fun f _ => h.entries_new hout hnew f.name
  have hbehind : M.Behind ps c ⟨0, 0⟩ :=
    behind_of_settled hfields (fun f hf => absurd hf List.not_mem_nil)
  refine Logs.bind (classifyFields_logs hroot hn hnests x.fields hfields
    ⟨hway, hat, htrip, hopen, hpassed, hbehind, hlog⟩ (.none ps) (Model.describeClass_nodup hx) hentries) ?_
  exact fun _ _ hlog => (Logs.onDraft hlog).discard

theorem buildMessage_nests (hroot : M.isComposite root = true) {levels : Nat}
    (hlevels : levels + 1 + path.length = M.classes.length + 1) (hway : M.Way root (c :: path)) :
    Nests M o root (fun u => buildMessage M o levels u .nested) (visit M o root levels) (c :: path) := by
  intro d ps pending s hway' hnew h
  have hne : d ≠ root := by
    rintro rfl
    exact (List.nodup_cons.mp hway'.nodup).1 hway.root_mem
  refine buildMessage_ends hroot levels ?_ hway' ?_ hnew h
  · rw [List.length_cons]
    omega
  · rw [messageName_of_ne hne]
    rfl

theorem buildMessage_logs (hroot : M.isComposite root = true) (levels : Nat) {policy : Name.Policy}
    (hlevels : levels + path.length = M.classes.length + 1) (hway : M.Way root (c :: path))
    (hname : policy.messageName (M.simpleName c) o.affix = messageName M o root c)
    (hnew : .message c ∉ parts ps) (h : At M o root path ps pending s) (htrip : M.Trip root legs c)
    (hopen : root :: legs.map Leg.target = (c :: path).reverse) (hpassed : M.Passed ps root legs)
    (hlog : Logged M root s.registry) : Logs M root (buildMessage M o levels (.cls c) policy) s := by
  -- A nested class is one trip further, at a place behind which all is written.
  induction levels generalizing c path ps pending s policy legs with
  | zero =>
      have hle := hway.length_le
      omega
  | succ levels ih =>
      have hout : c ∉ path := (List.nodup_cons.mp hway.nodup).1
      have hnests := buildMessage_nests (o := o) hroot hlevels hway
      have hn : NestsLogged M o root (fun u => buildMessage M o levels u .nested) legs c path := by
        intro place d ps pending s hst hd hcomp hout' hnew'
        have hne : d ≠ root := fun he => hout' (he ▸ hway.root_mem)
        obtain ⟨f, _, hf, hu⟩ := hd.exists_uses
        refine ih ?_ (.into hway ⟨⟨f, hf, hu⟩, hcomp⟩ hout') ?_ hnew' hst.state (hst.trip.concat hd)
          (hst.opened_concat d) (hst.passed.concat hst.trip hst.behind) hst.logged
        · rw [List.length_cons]
          omega
        · rw [messageName_of_ne hne]
          rfl
      unfold buildMessage
      cases hx : M.describeClass c with
      | error fault =>
          simp only [Model.describe, hx]
          exact trivial
      | ok x =>
          simp only [Model.describe, hx, fromResult, pure_bind, (Model.describeClass_ok hx).1, hname]
          have hinside := insideClass_ends hroot hway hnests hx hnew h
          have hlogs := insideClass_logs hroot hway hn hnests hx hnew h htrip hopen hpassed hlog
          refine Ends.bind (within_ends h.trail hout ((hinside.and hlogs).mono (fun _ s' hs => ?_)
            (fun _ _ hf => ⟨hf.1.1, trivial⟩)))
          exact ⟨hs.1.1, Ends.of_pure hs.2⟩

def Titled (M : Model) (o : Options) (root : ClassRef) (pieces : List Piece) (d : ClassRef) (name : String) :
    Prop :=
  ∃ p ∈ pieces, (p.part = .message d ∨ p.part = .enumeration d) ∧
    (pieceBlocks M o root p).head?.map Block.name = some name

/-- What the root leads to is in the registry, and nothing else: each class and each enum with the path of
the first trip to it, and with the name of the first block that has been written for it. -/
structure Discovers (M : Model) (o : Options) (root : ClassRef) (pieces : List Piece) (r : Registry) :
    Prop where
  classes : ∀ e ∈ r.entries, ∃ d, e.1 = .cls d
  registered : ∀ d, r.contains (.cls d) = true ↔ M.Involves root d
  entries : ∀ d e, r.get? (.cls d) = some e →
    (∃ legs, M.FirstTrip root legs d) ∧
    (∀ legs, M.FirstTrip root legs d → e.path = M.tripText root legs) ∧
    Titled M o root pieces d e.name

theorem Logged.get? {r : Registry} (h : Logged M root r) {x : RegistryEntry}
    (hx : r.get? (.cls d) = some x) : ∃ legs, M.FirstTrip root legs d ∧ x.path = M.tripText root legs := by
  obtain ⟨e, he, rfl⟩ := Option.map_eq_some_iff.mp hx
  obtain ⟨d', legs, hd', hfirst, hpath⟩ := h e (List.mem_of_find?_eq_some he)
  have hsame := List.find?_some he
  rw [hd', TypeExpr.same_cls, decide_eq_true_iff] at hsame
  exact ⟨legs, hsame ▸ hfirst, hpath⟩

theorem Logged.discovers {r : Registry} {pieces : List Piece} (h : Logged M root r)
    (hneeds : ∀ d, M.Involves root d → r.contains (.cls d) = true)
    (hname : ∀ d e, r.get? (.cls d) = some e → Titled M o root pieces d e.name) :
    Discovers M o root pieces r where
  classes := fun e he => (h e he).imp fun _ h => h.choose_spec.1
  registered := by
    refine fun d => ⟨fun hd => ?_, hneeds d⟩
    rw [Registry.contains, Bool.and_eq_true] at hd
    obtain ⟨x, hx⟩ := Option.isSome_iff_exists.mp hd.2
    obtain ⟨legs, hfirst, _⟩ := h.get? hx
    exact hfirst.trip.involves
  entries := by
    intro d e he
    obtain ⟨legs, hfirst, hpath⟩ := h.get? he
    exact ⟨⟨legs, hfirst⟩, fun legs' h' => (hfirst.unique h') ▸ hpath, hname d e he⟩

theorem titled_of_mem {p : Part} (hp : M.part? (.cls d) = some p) (hmem : p ∈ parts ps) :
    Titled M o root ps d (className M o root d) := by
  obtain ⟨q, hq, hpart⟩ := List.mem_map.mp hmem
  refine ⟨q, hq, ?_⟩
  rw [← List.head?_map, pieceBlocks_names, hpart]
  unfold Model.part? at hp
  dsimp only at hp
  split_ifs at hp with he hcomp
  · cases hp
    exact ⟨.inr rfl, by rw [className_of_enum he]; rfl⟩
  · cases hp
    exact ⟨.inl rfl, by rw [className_of_composite hcomp]; rfl⟩

theorem buildRoot_logs (hroot : M.isComposite root = true) :
    Logs M root (buildMessage M o (levels M) (.cls root) .root) {} := by
  have htrip : M.Trip root [] root := rfl
  refine buildMessage_logs hroot (levels M) rfl .root ?_ List.not_mem_nil .start htrip rfl trivial
    (fun e he => absurd he List.not_mem_nil)
  rw [messageName_root]
  rfl

theorem part?_of_involves (hroot : M.isComposite root = true) (h : M.Involves root d) :
    ∃ p, M.part? (.cls d) = some p ∧ M.Needs root p := by
  rcases h with h | ⟨he, h⟩
  · have hcomp : M.isComposite d = true := by
      cases h with
      | refl => exact hroot
      | tail _ hr => exact hr.2
    exact ⟨_, Model.part?_composite hcomp, h⟩
  · exact ⟨_, Model.part?_enum he, he, h⟩

theorem insideBare_ends (name : String) :
    Ends (do
        registerHere M (.cls root) name
        onDraft (Draft.beginMessage name true)
        classifyFields M o nested 1 []
        discard (onDraft Draft.endMessage))
      { trail := Trail.along [root] }
      (fun _ s => s.trail = Trail.along [root] ∧ s.registry = ⟨[(.cls root, ⟨M.tripText root [], name⟩)]⟩ ∧
        s.draft.blocks = [.message name [], .wrapper name])
      (fun _ s => s.trail = Trail.along [root]) := by
  have hhere : registerHere M (.cls root) name { trail := Trail.along [root] } =
      .ok ⟨⟩ { registry := ⟨[(.cls root, ⟨M.tripText root [], name⟩)]⟩, trail := Trail.along [root] } := rfl
  apply Ends.bind
  unfold Ends
  rw [hhere]
  refine Ends.bind (onDraft_ends (Ends.of_modify (Ends.bind (Ends.of_pure ?_))))
  refine Ends.discard (onDraft_ends ((Draft.endMessage_attempt rfl).mono ?_ (fun _ _ _ => rfl)))
  exact fun _ e h => ⟨rfl, rfl, h.2.1.blocks⟩

theorem buildBare_ends (hroot : M.fieldsOf root = []) :
    Ends (buildMessage M o (levels M) (.cls root) .root) {}
      (fun _ s => s.registry = ⟨[(.cls root, ⟨M.tripText root [], messageName M o root root⟩)]⟩ ∧
        s.draft.blocks = pieceBlocks M o root (.message root []))
      (fun _ _ => True) := by
  have hname : Name.Policy.root.messageName (M.simpleName root) o.affix = messageName M o root root := by
    simp [messageName]
  unfold levels buildMessage
  cases hx : M.describeClass root with
  | error fault =>
      simp only [Model.describe, hx]
      exact trivial
  | ok x =>
      have hfields : x.fields = [] := Model.fieldsOf_of_describeClass hx ▸ hroot
      simp only [Model.describe, hx, fromResult_ok, (Model.describeClass_ok hx).1, hfields, hname]
      have htrail : ({} : Progress).trail = Trail.along [] := rfl
      refine Ends.bind (within_ends htrail List.not_mem_nil ((insideBare_ends _).mono ?_ ?_))
      · exact fun _ _ h => ⟨h.1, Ends.of_pure h.2⟩
      · exact fun _ _ h => ⟨h, trivial⟩

theorem composite_discovers {name : String} (hroot : M.isComposite root = true)
    (h : buildMessage M o (levels M) (.cls root) .root {} = .ok name s) :
    ∃ pieces, M.Covers root pieces ∧ s.draft.blocks = pieces.flatMap (pieceBlocks M o root) ∧
      Discovers M o root pieces s.registry := by
  obtain ⟨ps, _, hat, _, hmem⟩ := (buildRoot_ends hroot).of_ok h
  refine ⟨ps.reverse, hat.sound.covers hmem, hat.blocks, ((buildRoot_logs hroot).of_ok h).discovers ?_ ?_⟩
  · intro d hd
    obtain ⟨p, hp, hneeds⟩ := part?_of_involves hroot hd
    exact (hat.contains_cls d).mpr (met_of_mem hp (hat.sound.complete hmem hneeds))
  · intro d e he
    have hmet : Met M [] ps d := (hat.contains_cls d).mp (by simp [Registry.contains, TypeExpr.isKey_cls, he])
    obtain ⟨e', he', hname⟩ := hat.registry.get?_cls hmet
    cases he.symm.trans he'
    obtain ⟨p, hp, hps⟩ := hmet.resolve_left List.not_mem_nil
    obtain ⟨q, hq, hd, hblock⟩ := titled_of_mem hp hps
    exact ⟨q, List.mem_reverse.mpr hq, hd, hname ▸ hblock⟩

theorem bare_discovers {name : String} (hroot : M.fieldsOf root = [])
    (h : buildMessage M o (levels M) (.cls root) .root {} = .ok name s) :
    ∃ pieces, M.Covers root pieces ∧ s.draft.blocks = pieces.flatMap (pieceBlocks M o root) ∧
      Discovers M o root pieces s.registry := by
  obtain ⟨hr, hb⟩ := (buildBare_ends hroot).of_ok h
  have hlog : Logged M root s.registry := by
    rw [hr]
    exact List.forall_mem_singleton.mpr ⟨root, [], rfl, M.firstTrip_root root, rfl⟩
  refine ⟨[.message root []], Model.covers_bare hroot, by rw [hb]; rfl, hlog.discovers ?_ ?_⟩
  · rintro d (hd | ⟨_, c, hc, f, hf, _⟩)
    · rw [Model.eq_of_reachable hroot hd, hr]
      simp [Registry.contains, Registry.get?, TypeExpr.isKey_cls, TypeExpr.same_cls]
    · rw [Model.eq_of_reachable hroot hc, hroot] at hf
      exact absurd hf List.not_mem_nil
  · intro d e he
    rw [hr, Registry.get?] at he
    obtain ⟨x, hx, rfl⟩ := Option.map_eq_some_iff.mp he
    have hsame := List.find?_some hx
    rw [List.mem_singleton.mp (List.mem_of_find?_eq_some hx)] at hsame ⊢
    rw [TypeExpr.same_cls, decide_eq_true_iff] at hsame
    exact ⟨_, List.mem_singleton_self _, .inl (hsame ▸ rfl), rfl⟩

/-- A compilation registers the classes and the enums that its root leads to and no others, each with the
path of the first trip to it and the name of its block. -/
theorem buildRoot_discovers {name : String} {t : TypeExpr}
    (h : buildMessage M o (levels M) t .root {} = .ok name s) :
    ∃ root pieces, t = .cls root ∧ M.Covers root pieces ∧
      s.draft.blocks = pieces.flatMap (pieceBlocks M o root) ∧ Discovers M o root pieces s.registry := by
  have hd : ∃ d, M.describe t = .ok d := by
    unfold levels buildMessage at h
    cases hd : M.describe t with
    | error fault => simp only [hd] at h; cases h
    | ok d => exact ⟨d, rfl⟩
  obtain ⟨d, hd⟩ := hd
  obtain ⟨root, rfl, _⟩ := describe_ok hd
  by_cases hroot : M.isComposite root = true
  · obtain ⟨pieces, hpieces⟩ := composite_discovers hroot h
    exact ⟨root, pieces, rfl, hpieces⟩
  · have hnone : M.fieldsOf root = [] :=
      List.eq_nil_iff_forall_not_mem.mpr fun _ hf => hroot (Model.composite_of_field hf)
    obtain ⟨pieces, hpieces⟩ := bare_discovers hnone h
    exact ⟨root, pieces, rfl, hpieces⟩

theorem shop_discovers : ∃ name s pieces,
    buildMessage .shop default (levels .shop) (.cls (.declared 2)) .root {} = .ok name s ∧
      Model.shop.Covers (.declared 2) pieces ∧
      s.draft.blocks = pieces.flatMap (pieceBlocks .shop default (.declared 2)) ∧
      Discovers .shop default (.declared 2) pieces s.registry := by
  obtain ⟨name, s, h⟩ : ∃ name s,
      buildMessage .shop default (levels .shop) (.cls (.declared 2)) .root {} = .ok name s :=
    exists_of_run' (by decide +kernel)
  obtain ⟨root, pieces, hroot, hcovers, hblocks, hdiscovers⟩ := buildRoot_discovers h
  cases hroot
  exact ⟨name, s, pieces, h, hcovers, hblocks, hdiscovers⟩

end Compiler

end ClassSchema
