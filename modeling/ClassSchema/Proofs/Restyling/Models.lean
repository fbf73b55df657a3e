import ClassSchema.Proofs.Lineages
import ClassSchema.Proofs.Restyling.Resolution
import ClassSchema.Proofs.Scopes

namespace ClassSchema

theorem forall₂_getD {α β : Type} {R : α → β → Prop} {l : List α} {l' : List β} {a : α} {b : β}
    (h : List.Forall₂ R l l') (hd : R a b) (i : Nat) : R (l.getD i a) (l'.getD i b) := by
  induction h generalizing i with
  | nil => exact hd
  | cons hab _ ih =>
      cases i with
      | zero => exact hab
      | succ i => exact ih i

theorem Restyled.isStored {joint : TypeExpr → TypeExpr → Prop} {place : Place} {t t' : TypeExpr}
    (h : Restyled joint place t t') (hjoint : Conservative joint) : t'.isStored = t.isStored := by
  induction h with
  | same => rfl
  | layer _ hf _ ih => rw [hf.covered.stored, ← ih hjoint, hf.stored]
  | head =>
      simp only [TypeExpr.sequenceOf_eq]
      rfl
  | @qualified _ _ q => cases q <;> rfl
  | union hc _ hj ih => exact hc.isStored (fun i m m' hm hm' => ih i m m' hm hm' hjoint) hj hjoint
  | _ => rfl

section

variable {joint : TypeExpr → TypeExpr → Prop} {f f' : String × TypeExpr}

theorem FieldRestyled.refl (f : String × TypeExpr) : FieldRestyled joint f f := ⟨rfl, .same⟩

theorem FieldRestyled.asArgument (h : FieldRestyled joint f f') :
    FieldRestyled joint (f.1, f.2.asArgument) (f'.1, f'.2.asArgument) := by
  refine ⟨h.1, ?_⟩
  rcases h.2.asArgument with ht | ⟨ht, ht'⟩
  · simp only [ht]
    exact .same
  · simp only [ht, ht']
    exact h.2

theorem FieldRestyled.stores {M M' : Model} (h : FieldRestyled joint f f') (hjoint : Conservative joint)
    (hE : M'.evaluator = M.evaluator) (c : ClassRef) : M'.stores c f'.2 = M.stores c f.2 := by
  have hstored {N : Model} {t : TypeExpr} (ht : t.asArgument = t) : N.stores c t = t.isStored := by
    cases t <;> first | rfl | cases ht
  rcases h.2.asArgument with ht | ⟨ht, ht'⟩
  · rw [ht, Model.stores_congr hE]
  · rw [hstored ht, hstored ht', h.2.isStored hjoint]

end

structure HeritageRestyled (joint : TypeExpr → TypeExpr → Prop) (h h' : Heritage) : Prop where
  lineage : h'.lineage = h.lineage
  own : List.Forall₂ (FieldRestyled joint) h.own h'.own
  stored : h'.stored = h.stored

namespace Heritage

variable {joint : ClassRef → TypeExpr → TypeExpr → Prop} {jointly : TypeExpr → TypeExpr → Prop}
  {rows rows' : List Heritage} {d d' : ClassDecl} {fields fields' : List (String × TypeExpr)}
  {stores stores' : ClassRef → TypeExpr → Bool}

theorem restyled_refl (h : Heritage) : HeritageRestyled jointly h h :=
  ⟨rfl, List.forall₂_same.mpr fun f _ => .refl f, rfl⟩

theorem arguments_restyled (h : List.Forall₂ (FieldRestyled jointly) fields fields') :
    List.Forall₂ (FieldRestyled jointly) (arguments fields) (arguments fields') := by
  induction h with
  | nil => exact .nil
  | cons hf _ ih => exact .cons hf.asArgument ih

theorem putAll_restyled (h : List.Forall₂ (FieldRestyled jointly) fields fields') :
    List.Forall₂ (FieldRestyled jointly) (putAll [] fields) (putAll [] fields') :=
  forall₂_putAll (fun _ _ => And.left) .nil h

/-- Whatever is joint in a class is joint in those that copy its fields. -/
theorem earlier_restyled (h : ∀ c, HeritageRestyled (joint c) (find rows c) (find rows' c))
    {cs : List ClassRef} (hj : ∀ c ∈ cs, ∀ t t', joint c t t' → jointly t t') :
    List.Forall₂ (FieldRestyled jointly) (cs.flatMap fun c => (find rows c).own)
      (cs.flatMap fun c => (find rows' c).own) := by
  induction cs with
  | nil => exact .nil
  | cons c cs ih =>
      obtain ⟨hc, hcs⟩ := List.forall_mem_cons.mp hj
      exact List.rel_append ((h c).own.imp fun _ _ hf => ⟨hf.1, hf.2.mono hc⟩) (ih hcs)

theorem storedTable_restyled (hrows : ∀ c, HeritageRestyled (joint c) (find rows c) (find rows' c))
    {stores stores' : TypeExpr → Bool}
    (hstores : ∀ f f', FieldRestyled jointly f f' → stores' f'.2 = stores f.2)
    (h : List.Forall₂ (FieldRestyled jointly) fields fields') (cs : List ClassRef) :
    storedTable stores' rows' cs fields' = storedTable stores rows cs fields := by
  have hown : fields'.map (fun f => (f.1, stores' f.2)) = fields.map (fun f => (f.1, stores f.2)) := by
    induction h with
    | nil => rfl
    | cons hf _ ih => rw [List.map_cons, List.map_cons, ih, hf.1, hstores _ _ hf]
  simp only [storedTable, hown, (hrows _).stored]

theorem ofDecl_restyled (hrows : ∀ c, HeritageRestyled (joint c) (find rows c) (find rows' c))
    (hlength : rows'.length = rows.length) (h : DeclRestyled jointly d d')
    (hstores : ∀ f f', FieldRestyled jointly f f' →
      stores' (.declared rows.length) f'.2 = stores (.declared rows.length) f.2)
    (hcopied : ∀ exprs fields, d.body = .record .typedDict exprs fields →
      ∀ c ∈ exprs.filterMap TypeExpr.baseClass?, ∀ t t', joint c t t' → jointly t t') :
    HeritageRestyled jointly (ofDecl stores rows d) (ofDecl stores' rows' d') := by
  have hgeneric : isGeneric rows' = isGeneric rows := by
    funext c
    rw [isGeneric, isGeneric, (hrows c).lineage]
  have hancestors (bs : List ClassRef) : ancestors rows' bs = ancestors rows bs := by
    simp only [ancestors, (hrows _).lineage]
  have hinherited (cs : List ClassRef) : inherited rows' cs = inherited rows cs := by
    simp only [inherited, (hrows _).stored]
  have hbody := h.body
  generalize hd : d.body = body at hbody
  generalize hd' : d'.body = body' at hbody
  cases hbody with
  | enumeration =>
      simp only [ofDecl, hd, hd', hlength]
      exact ⟨rfl, .nil, rfl⟩
  | @record style bases fields fields' hfields =>
      have hown := putAll_restyled hfields
      cases style with
      | plain =>
          simp only [ofDecl, hd, hd', hgeneric, hancestors, hinherited, hlength]
          exact ⟨rfl, hown, rfl⟩
      | dataclass =>
          simp only [ofDecl, hd, hd', hgeneric, hancestors, hlength,
            storedTable_restyled hrows hstores hown]
          exact ⟨rfl, hown, rfl⟩
      | namedTuple =>
          simp only [ofDecl, hd, hd', hlength]
          exact ⟨rfl, putAll_restyled (arguments_restyled hfields), rfl⟩
      | typedDict =>
          simp only [ofDecl, hd, hd', hlength]
          exact ⟨rfl, putAll_restyled (arguments_restyled
            (List.rel_append (earlier_restyled hrows (hcopied _ _ hd)) hfields)), rfl⟩

end Heritage

theorem BodyRestyled.constants? {joint : TypeExpr → TypeExpr → Prop} {body body' : ClassBody}
    (h : BodyRestyled joint body body') : body'.constants? = body.constants? := by
  cases h <;> rfl

theorem Heritage.find_take_of_le {rows : List Heritage} {i j : Nat} (h : i ≤ j) :
    find (rows.take i) (.declared j) = ⟨[.declared j], [], none⟩ := by
  rw [find, List.getD_eq_getElem?_getD, List.getElem?_eq_none (by rw [List.length_take]; omega),
    Option.getD_none]

theorem Heritage.find_take_of_lt {rows : List Heritage} {i j : Nat} (h : j < i) :
    find (rows.take i) (.declared j) = find rows (.declared j) := by
  simp only [find, List.getD_eq_getElem?_getD, List.getElem?_take_of_lt h]

namespace ModelRestyled

section

variable {joint : ClassRef → TypeExpr → TypeExpr → Prop} {M M' : Model} (h : ModelRestyled joint M M')
include h

theorem simpleName : M'.simpleName = M.simpleName :=
  Model.simpleName_congr fun i => (h.decl i).name

theorem isEnumClass : M'.isEnumClass = M.isEnumClass :=
  Model.isEnumClass_congr fun i => (h.decl i).body.constants?

theorem constants : M'.constants = M.constants :=
  Model.constants_congr fun i => (h.decl i).body.constants?

theorem heritage_declared (hjoint : ∀ c, Conservative (joint c))
    (hcopied : ∀ b c, M.CopiedBy b c → ∀ t t', joint b t t' → joint c t t') (i : Nat) :
    HeritageRestyled (joint (.declared i)) (M.heritage (.declared i)) (M'.heritage (.declared i)) := by
  -- The induction goes over the classes in the order of their declaration.
  induction i using Nat.strongRecOn with
  | _ i ih =>
      by_cases hi : i < M.classes.length
      · have hi' : i < M'.classes.length := h.length.symm ▸ hi
        have hdecl := h.decl i
        have hlength : ((Heritage.table M.stores M.classes).take i).length = i := by
          rw [List.length_take, Heritage.length_table, Nat.min_eq_left (Nat.le_of_lt hi)]
        have hlength' : ((Heritage.table M'.stores M'.classes).take i).length = i := by
          rw [List.length_take, Heritage.length_table, Nat.min_eq_left (Nat.le_of_lt hi')]
        rw [Model.decl_eq hi, Model.decl_eq hi'] at hdecl
        rw [Model.heritage_declared hi, Model.heritage_declared hi']
        have hrows : ∀ c, HeritageRestyled (joint c)
            (Heritage.find ((Heritage.table M.stores M.classes).take i) c)
            (Heritage.find ((Heritage.table M'.stores M'.classes).take i) c) := by
          intro c
          cases c with
          | builtin b => exact Heritage.restyled_refl _
          | declared j =>
              by_cases hj : j < i
              · rw [Heritage.find_take_of_lt hj, Heritage.find_take_of_lt hj]
                exact ih j hj
              · rw [Heritage.find_take_of_le (Nat.le_of_not_lt hj),
                  Heritage.find_take_of_le (Nat.le_of_not_lt hj)]
                exact Heritage.restyled_refl _
        refine Heritage.ofDecl_restyled hrows (hlength'.trans hlength.symm) hdecl (fun f f' hf => ?_)
          fun exprs fields hbody c hc => ?_
        · exact hf.stores (hjoint _) h.evaluator _
        · exact hcopied c (.declared i) ⟨i, exprs, fields, rfl, (Model.decl_eq hi).symm ▸ hbody, hc⟩
      · have hi' : M'.classes.length ≤ i := h.length.symm ▸ Nat.le_of_not_lt hi
        rw [Model.heritage_undeclared (Nat.le_of_not_lt hi), Model.heritage_undeclared hi']
        exact Heritage.restyled_refl _

end

variable {M M' : Model} {c : ClassRef} {name : String} (h : ModelRestyled M.StaySole M M')
include h

theorem heritage (c : ClassRef) : HeritageRestyled (M.StaySole c) (M.heritage c) (M'.heritage c) := by
  cases c with
  | builtin b => exact Heritage.restyled_refl _
  | declared i =>
      exact h.heritage_declared M.staySole_conservative
        (fun b c hbc t t' hj d u u' hd => hj d u u' (.head hbc hd)) i

omit h in
theorem finds (E : Evaluator) (declarer : ClassRef) (room : Nat) : E.Finds (E.lookUp declarer room []) where
  toSettles := E.lookUp_settles declarer room []
  compiled := by
    intro whole s u hu
    cases room with
    | zero => cases hu
    | succ room =>
        rw [Evaluator.lookUp, if_neg List.not_mem_nil] at hu
        obtain ⟨_, hs, _⟩ := bind_eq_ok.mp hu
        exact hs

omit h in
def TypesAgree (e e' : String × TypeExpr) : Prop := e'.1 = e.1 ∧ Related .position e.2 e'.2

theorem resolve_agree {f f' : String × TypeExpr} (hf : FieldRestyled (M.StaySole c) f f') :
    Agree (Related .position) (M.resolve c f.2) (M'.resolve c f'.2) := by
  rw [Model.resolve_congr h.evaluator]
  rcases hf.2.asArgument with ht | ⟨ht, ht'⟩
  · rw [ht]
    exact .of_eq rfl fun _ => Or.inl rfl
  have hresolve {t : TypeExpr} (ht : t.asArgument = t) : M.resolve c t =
      M.evaluator.substitute (M.evaluator.lookUp c M.evaluator.depth []) false t := by
    have htext : t.isText = false := ht ▸ t.isText_asArgument
    rw [Model.resolve, Evaluator.resolve, htext, ht]
  rw [hresolve ht, hresolve ht']
  have hagree := hf.2.agree (finds M.evaluator c M.evaluator.depth) (fun t t' u u' hj ht ht' hu hu' =>
    hj c u u' .refl ((hresolve ht).trans hu) ((hresolve ht').trans hu')) false
  rcases hagree with heq | hagree
  · rw [heq]
    exact .of_eq rfl fun _ => Or.inl rfl
  · exact hagree.mono fun _ _ => Or.inr

theorem declarations_restyled (c : ClassRef) :
    List.Forall₂ (fun d d' => d'.1 = d.1 ∧ FieldRestyled (M.StaySole d.1) d.2 d'.2) (M.declarations c)
      (M'.declarations c) := by
  simp only [Model.declarations, (h.heritage c).lineage]
  induction (M.heritage c).lineage.reverse with
  | nil => exact .nil
  | cons d ds ih =>
      refine List.rel_append ?_ ih
      rw [List.forall₂_map_left_iff, List.forall₂_map_right_iff]
      exact (h.heritage d).own.imp fun _ _ hf => ⟨rfl, hf⟩

theorem resolveEach_agree {ds ds' : List (ClassRef × String × TypeExpr)}
    (hds : List.Forall₂ (fun d d' => d'.1 = d.1 ∧ FieldRestyled (M.StaySole d.1) d.2 d'.2) ds ds') :
    Agree (List.Forall₂ TypesAgree) (M.resolveEach ds) (M'.resolveEach ds') := by
  induction hds with
  | nil => exact .ok .nil
  | cons hd _ ih =>
      obtain ⟨hdecl, hf⟩ := hd
      simp only [Model.resolveEach, hdecl]
      refine (h.resolve_agree hf).bind fun u u' hu => ih.bind fun rest rest' hrest => ?_
      exact .ok (.cons ⟨hf.1, hu⟩ hrest)

theorem resolvedFields_agree :
    Agree (List.Forall₂ TypesAgree) (M.resolvedFields c) (M'.resolvedFields c) :=
  (h.resolveEach_agree (h.declarations_restyled c)).bind fun _ _ hts =>
    .ok (forall₂_putAll (fun _ _ => And.left) .nil hts)

omit h in
/-- Fields that mirror each other in both directions. -/
structure FieldsAgree (M M' : Model) (f f' : Field) : Prop where
  forth : MirrorsField M M' False f f'
  back : MirrorsField M' M False f' f

theorem fieldNames_agree {types types' : List (String × TypeExpr)}
    (ht : List.Forall₂ TypesAgree types types') : M'.fieldNames c types' = M.fieldNames c types := by
  have hfilter : (types'.filter (!·.2.isClassVar)).map Prod.fst =
      (types.filter (!·.2.isClassVar)).map Prod.fst := by
    induction ht with
    | nil => rfl
    | cons he _ ih =>
        simp only [List.filter_cons, he.2.isClassVar]
        split <;> simp [he.1, ih]
  simp only [Model.fieldNames, (h.heritage c).stored, hfilter]

theorem layoutOf (t : TypeExpr) : M'.layoutOf t = M.layoutOf t := by
  have henum : M'.isEnum = M.isEnum := by
    funext t
    cases t <;> simp only [Model.isEnum, h.isEnumClass]
  simp only [Model.layoutOf, henum]

theorem fieldsAgree_of_eq {owner t : TypeExpr} {l : Layout} (hl : M.layoutOf t = .ok l) :
    FieldsAgree M M' ⟨owner, name, t, l⟩ ⟨owner, name, t, l⟩ := by
  have hl' : M'.layoutOf t = .ok l := by rw [h.layoutOf, hl]
  exact ⟨⟨nofun, rfl, rfl, hl, hl', Or.inl rfl, fun _ => rfl, .refl _, .refl _⟩,
    ⟨nofun, rfl, rfl, hl', hl, Or.inl rfl, fun _ => rfl, .refl _, .refl _⟩⟩

omit h in
theorem fieldsAgree_of_layouts {owner t t' : TypeExpr} {l l' : Layout} (ha : LayoutsAgree l l')
    (hl : M.layoutOf t = .ok l) (hl' : M'.layoutOf t' = .ok l') :
    FieldsAgree M M' ⟨owner, name, t, l⟩ ⟨owner, name, t', l'⟩ := by
  have hplain {l : Layout} (hc : l.shape.isContainer = true) {P : Prop} (hn : l.shape.isContainer = false) :
      P := absurd hn (by rw [hc]; simp)
  exact ⟨⟨nofun, rfl, rfl, hl, hl', ha.shape, hplain ha.container, ha.key.forth, ha.element.forth⟩,
    ⟨nofun, rfl, rfl, hl', hl, ha.symm.shape, hplain ha.symm.container, ha.key.back, ha.element.back⟩⟩

theorem layouts_agree (owner : TypeExpr) (name : String) {u u' : TypeExpr} {place : Place} (hu : Related place u u') :
    Agree (fun p p' => FieldsAgree M M' ⟨owner, name, p.1, p.2⟩ ⟨owner, name, p'.1, p'.2⟩)
      (do let t ← u.unwrap; return (t, ← M.layoutOf t) : Except Unsupported _)
      (do let t ← u'.unwrap; return (t, ← M'.layoutOf t) : Except Unsupported _) := by
  refine hu.unwrapped.bind fun t t' ht => ?_
  rcases ht with rfl | hr
  · refine Agree.bind (Agree.of_eq (R := Eq) (h.layoutOf t').symm fun _ => rfl).with_eq ?_
    rintro l _ ⟨rfl, hl, _⟩
    exact .ok (h.fieldsAgree_of_eq hl)
  · refine (hr.layouts M M').with_eq.bind ?_
    rintro l l' ⟨ha, hl, hl'⟩
    exact .ok (fieldsAgree_of_layouts ha hl hl')

theorem describeField_agree {owner u u' : TypeExpr} {place : Place} (hu : Related place u u') :
    Agree (FieldsAgree M M') (M.describeField owner name u) (M'.describeField owner name u') := by
  have hfails (M : Model) (why : Unsupported) : ∃ fault, (do
      throw (.unsupported (← M.requireName owner) name why) : Except Fault Field) = .error fault := by
    cases M.requireName owner <;> exact ⟨_, rfl⟩
  have hlayouts := h.layouts_agree owner name hu
  unfold Model.describeField
  generalize (do let t ← u.unwrap; return (t, ← M.layoutOf t) : Except Unsupported _) = x at hlayouts
  generalize (do let t ← u'.unwrap; return (t, ← M'.layoutOf t) : Except Unsupported _) = y at hlayouts
  cases hlayouts with
  | ok ha => exact .ok ha
  | @error why why' =>
      obtain ⟨_, hl⟩ := hfails M why
      obtain ⟨_, hr⟩ := hfails M' why'
      exact .of_error hl hr

omit h in
theorem lookup_agree {types types' : List (String × TypeExpr)} (ht : List.Forall₂ TypesAgree types types')
    (name : String) :
    types.lookup name = none ∧ types'.lookup name = none ∨
      ∃ u u', types.lookup name = some u ∧ types'.lookup name = some u' ∧ Related .position u u' := by
  induction ht with
  | nil => exact Or.inl ⟨rfl, rfl⟩
  | @cons e e' _ _ he _ ih =>
      rw [List.lookup_cons, List.lookup_cons, he.1]
      cases name == e.1 with
      | true => exact Or.inr ⟨_, _, rfl, rfl, he.2⟩
      | false => exact ih

theorem describeFields_agree {types types' : List (String × TypeExpr)}
    (ht : List.Forall₂ TypesAgree types types') (names : List String) :
    Agree (List.Forall₂ (FieldsAgree M M')) (M.describeFields c types names)
      (M'.describeFields c types' names) := by
  induction names with
  | nil => exact .ok .nil
  | cons name names ih =>
      simp only [Model.describeFields]
      rcases lookup_agree ht name with ⟨hl, hl'⟩ | ⟨u, u', hl, hl', hu⟩ <;> rw [hl, hl']
      · exact .error
      · exact (h.describeField_agree hu).bind fun _ _ hf => ih.bind fun _ _ hfs => .ok (.cons hf hfs)

theorem describeClass_agree (c : ClassRef) :
    Agree (fun d d' => List.Forall₂ (FieldsAgree M M') d.fields d'.fields) (M.describeClass c)
      (M'.describeClass c) := by
  simp only [Model.describeClass, h.isEnumClass, h.constants]
  split
  next => exact .ok .nil
  next =>
    have hresolved := h.resolvedFields_agree (c := c)
    generalize M.resolvedFields c = x, M'.resolvedFields c = y at hresolved
    cases hresolved with
    | error => exact .error
    | ok ht =>
        dsimp only
        rw [h.fieldNames_agree ht]
        exact (h.describeFields_agree ht _).bind fun _ _ hfs => .ok hfs

theorem mirrors : M.Mirrors M' False where
  simpleName := h.simpleName
  isEnumClass := h.isEnumClass
  constants := h.constants
  described := fun c d hd => by
    obtain ⟨d', hd', hfs⟩ := (h.describeClass_agree c).symm.exists_ok hd
    exact ⟨d', hd', hfs.imp fun _ _ => FieldsAgree.forth⟩
  undescribed := fun _ _ _ hf => hf.elim

theorem mirrored : M'.Mirrors M False where
  simpleName := h.simpleName.symm
  isEnumClass := h.isEnumClass.symm
  constants := h.constants.symm
  described := fun c d hd => by
    obtain ⟨d', hd', hfs⟩ := (h.describeClass_agree c).exists_ok hd
    exact ⟨d', hd', hfs.flip.imp fun _ _ => FieldsAgree.back⟩
  undescribed := fun _ _ _ hf => hf.elim

end ModelRestyled

end ClassSchema
