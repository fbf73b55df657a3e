import ClassSchema.Proofs.Ancestry
import ClassSchema.Proofs.Coverage

namespace ClassSchema

namespace Model

def storedAlong (M : Model) (cs : List ClassRef) : List (String × Bool) :=
  putAll [] (cs.reverse.flatMap fun c => (M.heritage c).stored.getD [])

/-- Both classes are dataclasses, or no class that the first one looks to is one. -/
def OfOneKind (M : Model) (c b : ClassRef) : Prop :=
  M.style? c = some .dataclass ∧ M.style? b = some .dataclass ∨
    ∀ d ∈ (M.heritage c).lineage, M.style? d ≠ some .dataclass

def declaresField (M : Model) (c : ClassRef) (t : TypeExpr) : Bool :=
  match M.style? c with
  | some .dataclass => M.stores c t
  | some .typedDict => M.isFieldType c t.asArgument
  | _ => M.isFieldType c t

/-- The body declares no name again that is no field of the base, and no field of the base as
anything but a field. -/
def KeepsFields (M : Model) (c b : ClassRef) : Prop :=
  ∀ f ∈ M.written c, (f.1, false) ∉ M.nameTable b ∧
    ((f.1, true) ∈ M.nameTable b → M.declaresField c f.2 = true)

instance (M : Model) (c b : ClassRef) : Decidable (M.KeepsFields c b) :=
  inferInstanceAs (Decidable (∀ f ∈ M.written c, (f.1, false) ∉ M.nameTable b ∧
    ((f.1, true) ∈ M.nameTable b → M.declaresField c f.2 = true)))

variable {M : Model} {i : Nat} {b c : ClassRef}

theorem storedAlong_cons (c : ClassRef) (cs : List ClassRef) :
    M.storedAlong (c :: cs) = putAll (M.storedAlong cs) ((M.heritage c).stored.getD []) := by
  rw [storedAlong, List.reverse_cons, List.flatMap_append, putAll_append, List.flatMap_singleton,
    storedAlong]

theorem nodup_storedAlong (cs : List ClassRef) : ((M.storedAlong cs).map Prod.fst).Nodup :=
  nodup_keys_putAll [] List.nodup_nil _

theorem declared_of_bases {j : Nat} (hb : .declared j ∈ M.bases c) :
    ∃ i < M.classes.length, c = .declared i := by
  cases c with
  | builtin a =>
      obtain ⟨_, _, h⟩ := List.mem_map.mp hb
      cases h
  | declared i =>
      by_cases hi : i < M.classes.length
      · exact ⟨i, hi, rfl⟩
      · rw [bases, decl, List.getD_eq_getElem?_getD, List.getElem?_eq_none (Nat.le_of_not_lt hi)] at hb
        cases List.mem_singleton.mp hb

theorem style_of_bases {j : Nat} (hb : .declared j ∈ M.bases (.declared i)) :
    M.style? (.declared i) = some .plain ∨ M.style? (.declared i) = some .dataclass ∨
      M.style? (.declared i) = some .typedDict := by
  rw [bases] at hb
  rw [style?]
  cases hbody : (M.decl i).body with
  | record style exprs fields =>
      rw [hbody] at hb
      cases style with
      | plain => exact Or.inl rfl
      | dataclass => exact Or.inr (Or.inl rfl)
      | typedDict => exact Or.inr (Or.inr rfl)
      | namedTuple => cases List.mem_singleton.mp hb
  | enumeration =>
      rw [hbody] at hb
      cases List.mem_singleton.mp hb

theorem declarations_sealed {own : List (String × TypeExpr)} {a : Builtin} (h : M.heritage (.declared i) =
    ⟨[.declared i, .builtin a, .builtin .object], own, none⟩) :
    M.declarations (.declared i) = own.map fun f => (.declared i, f) := by
  simp [declarations, h, heritage_builtin, Builtin.heritage]

theorem nameTable_sealed {own : List (String × TypeExpr)} {a : Builtin} (h : M.heritage (.declared i) =
    ⟨[.declared i, .builtin a, .builtin .object], own, none⟩)
    {types : List (String × TypeExpr)} (ht : M.resolvedFields (.declared i) = .ok types) :
    M.nameTable (.declared i) = putAll [] (own.map fun f => (f.1, M.isFieldType (.declared i) f.2)) := by
  rw [nameTable_resolved (congrArg Heritage.stored h) ht]
  obtain ⟨entries, hentries, htypes⟩ := bind_eq_ok.mp ht
  cases htypes
  rw [declarations_sealed h] at hentries
  rw [← resolveEach_flags hentries]
  exact putAll_map (fun t : TypeExpr => !t.isClassVar) _ _

namespace Formed

theorem stored_dataclass (hM : M.Formed) (hi : i < M.classes.length)
    (h : M.style? (.declared i) = some .dataclass) : (M.heritage (.declared i)).stored =
      some (putAll (M.storedAlong (M.ancestors (.declared i)))
        ((M.written (.declared i)).map fun f => (f.1, M.stores (.declared i) f.2))) := by
  have htables : ∀ d ∈ (M.ancestors (.declared i)).reverse,
      (Heritage.find ((Heritage.table M.stores M.classes).take i) d).stored.getD [] =
        (M.heritage d).stored.getD [] :=
    fun d hd => by rw [find_take (hM.ancestors_isBefore hi d (List.mem_reverse.mp hd))]
  rw [hM.heritage_merged hi h (Or.inr rfl), if_neg nofun, Heritage.storedTable,
    List.flatMap_congr htables, putAll_map, List.map_nil, putAll_ordered, storedAlong]

theorem stored_sole (hM : M.Formed) (hi : i < M.classes.length) (hbase : M.bases (.declared i) = [b])
    (h : M.style? (.declared i) = some .dataclass) (hb : M.style? b = some .dataclass) :
    ∃ s, (M.heritage b).stored = some s ∧ (M.heritage (.declared i)).stored =
      some (putAll s ((M.written (.declared i)).map fun f => (f.1, M.stores (.declared i) f.2))) := by
  cases b with
  | builtin b => cases hb
  | declared j =>
      have hj := Nat.lt_trans (hM.lt_of_bases hi (hbase ▸ List.mem_singleton_self _)) hi
      have hstored := hM.stored_dataclass hj hb
      refine ⟨_, hstored, ?_⟩
      rw [hM.stored_dataclass hi h, hM.ancestors_sole hbase, hM.heritage_merged hj hb (Or.inr rfl),
        storedAlong_cons, hstored, Option.getD_some, putAll_self_putAll (nodup_storedAlong _)]

theorem declarations_sole (hM : M.Formed) (hi : i < M.classes.length)
    (hbase : M.bases (.declared i) = [b]) (h : M.style? (.declared i) = some .plain) :
    M.declarations (.declared i) =
      M.declarations b ++ (putAll [] (M.written (.declared i))).map fun f => (.declared i, f) := by
  have hmerged := hM.heritage_merged hi h (Or.inl rfl)
  rw [declarations, hmerged, hM.ancestors_sole hbase, List.reverse_cons, List.flatMap_append,
    List.flatMap_singleton, hmerged, declarations]

theorem nameTable_plain (hM : M.Formed) (hi : i < M.classes.length)
    (hbase : M.bases (.declared i) = [b]) (h : M.style? (.declared i) = some .plain)
    (hstored : (M.heritage (.declared i)).stored = none) (hstored' : (M.heritage b).stored = none)
    {types : List (String × TypeExpr)} (ht : M.resolvedFields (.declared i) = .ok types) :
    M.nameTable (.declared i) = putAll (M.nameTable b)
      ((M.written (.declared i)).map fun f => (f.1, M.isFieldType (.declared i) f.2)) := by
  rw [nameTable_resolved hstored ht]
  obtain ⟨entries, hentries, htypes⟩ := bind_eq_ok.mp ht
  cases htypes
  rw [hM.declarations_sole hi hbase h, resolveEach_append] at hentries
  obtain ⟨us, vs, hus, hvs, rfl⟩ := hentries
  have hbfields : M.resolvedFields b = .ok (putAll [] us) := bind_eq_ok.mpr ⟨us, hus, rfl⟩
  rw [nameTable_resolved hstored' hbfields, putAll_append,
    putAll_map (fun t : TypeExpr => !t.isClassVar) (putAll [] us) vs, resolveEach_flags hvs,
    putAll_map (M.isFieldType (.declared i)), List.map_nil, putAll_ordered]

theorem own_made (h : ∀ d ∈ M.classes, ∀ f ∈ d.body.fields, f.2.isMade = true) (c : ClassRef) :
    ∀ f ∈ (M.heritage c).own, f.2.isMade = true :=
  Heritage.find_made (Heritage.table_made h) c

theorem own_dict {j : Nat} (hj : j < M.classes.length) (h : M.style? (.declared j) = some .typedDict) :
    ∃ fields, (M.heritage (.declared j)).own = putAll [] (Heritage.arguments fields) := by
  rw [style?] at h
  rw [heritage_declared hj, ← decl_eq hj, Heritage.ofDecl]
  cases hbody : (M.decl j).body with
  | record style exprs fields =>
      rw [hbody] at h
      cases h
      exact ⟨_, rfl⟩
  | enumeration => rw [hbody] at h; cases h

theorem heritage_dict (hM : M.Formed) (hi : i < M.classes.length) {j : Nat}
    (hbase : M.bases (.declared i) = [.declared j]) (h : M.style? (.declared i) = some .typedDict) :
    M.heritage (.declared i) = ⟨[.declared i, .builtin .dict, .builtin .object],
      putAll [] (Heritage.arguments ((M.heritage (.declared j)).own ++ M.written (.declared i))), none⟩ := by
  have hbefore := hM.earlier i hi _ (hbase ▸ List.mem_singleton_self _)
  rw [style?] at h
  rw [bases] at hbase
  rw [heritage_declared hi, ← decl_eq hi, Heritage.ofDecl, length_take hi, written]
  cases hbody : (M.decl i).body with
  | record style exprs fields =>
      rw [hbody] at h hbase
      cases h
      simp only [ClassBody.bases] at hbase
      split at hbase
      next => cases hbase
      next =>
        simp only [hbase, List.flatMap_singleton, find_take hbefore]
        rfl
  | enumeration => rw [hbody] at h; cases h

theorem nameTable_dict (hM : M.Formed) (hi : i < M.classes.length) {j : Nat}
    (hbase : M.bases (.declared i) = [.declared j]) (h : M.style? (.declared i) = some .typedDict)
    (hb : M.style? (.declared j) = some .typedDict) {types types' : List (String × TypeExpr)}
    (ht : M.resolvedFields (.declared i) = .ok types)
    (ht' : M.resolvedFields (.declared j) = .ok types') :
    M.nameTable (.declared i) = putAll (M.nameTable (.declared j))
      ((M.written (.declared i)).map fun f => (f.1, M.isFieldType (.declared i) f.2.asArgument)) := by
  have hj := Nat.lt_trans (hM.lt_of_bases hi (hbase ▸ List.mem_singleton_self _)) hi
  obtain ⟨a, own, hs⟩ := exists_heritage_dict hj hb
  obtain ⟨fields, hfields⟩ := own_dict hj hb
  have hmade := own_made hM.annotations (.declared j)
  have hcopied : own.map (fun f => (f.1, M.isFieldType (.declared i) f.2.asArgument)) =
      own.map fun f => (f.1, M.isFieldType (.declared j) f.2) := by
    refine List.map_congr_left fun f hf => ?_
    have hmem : f ∈ (M.heritage (.declared j)).own := by rwa [hs]
    obtain ⟨hself, htext⟩ := Heritage.argument_of_mem (hfields ▸ hmem)
    rw [hself, isFieldType_of_isMade (hmade f hmem) htext, isFieldType_of_isMade (hmade f hmem) htext]
  rw [nameTable_sealed (hM.heritage_dict hi hbase h) ht, nameTable_sealed hs ht', hs,
    putAll_map (M.isFieldType (.declared i)), List.map_nil, putAll_ordered, Heritage.arguments,
    List.map_map, List.map_append, putAll_append, ← hcopied]
  rfl

theorem nameTable_sole (hM : M.Formed) (hi : i < M.classes.length) {j : Nat}
    (hbase : M.bases (.declared i) = [.declared j]) (hb : M.style? (.declared j) ≠ none)
    (hkind : M.OfOneKind (.declared i) (.declared j)) {types types' : List (String × TypeExpr)}
    (ht : M.resolvedFields (.declared i) = .ok types)
    (ht' : M.resolvedFields (.declared j) = .ok types') :
    M.nameTable (.declared i) = putAll (M.nameTable (.declared j))
      ((M.written (.declared i)).map fun f => (f.1, M.declaresField (.declared i) f.2)) := by
  have hmem : .declared j ∈ M.bases (.declared i) := hbase ▸ List.mem_singleton_self _
  rcases hkind with ⟨h, hdata⟩ | hnone
  · obtain ⟨s, hs, hstored⟩ := hM.stored_sole hi hbase h hdata
    simp only [declaresField, h]
    rw [nameTable_stored hs, nameTable_stored hstored]
  · rcases style_of_bases hmem with h | h | h
    · have hlineage := congrArg Heritage.lineage (hM.heritage_merged hi h (Or.inl rfl))
      rw [hM.ancestors_sole hbase] at hlineage
      have hnone' : ∀ d ∈ (M.heritage (.declared j)).lineage, M.style? d ≠ some .dataclass :=
        fun d hd => hnone d (hlineage ▸ List.mem_cons_of_mem _ hd)
      simp only [declaresField, h]
      exact hM.nameTable_plain hi hbase h (hM.stored_eq_none hnone) (hM.stored_eq_none hnone') ht
    · obtain ⟨rest, hrest⟩ := hM.exists_lineage (.declared i)
      exact absurd h (hnone _ (hrest ▸ List.mem_cons_self))
    · have hdict := (hM.dicts i hi h _ hmem).resolve_left hb
      simp only [declaresField, h]
      exact hM.nameTable_dict hi hbase h hdict ht ht'

/-- The names of a class begin with those of its sole base, which remain what they are. -/
theorem nameTable_begins (hM : M.Formed) (hi : i < M.classes.length) {j : Nat}
    (hbase : M.bases (.declared i) = [.declared j]) (hb : M.style? (.declared j) ≠ none)
    (hkind : M.OfOneKind (.declared i) (.declared j))
    (hkeeps : M.KeepsFields (.declared i) (.declared j)) {types types' : List (String × TypeExpr)}
    (ht : M.resolvedFields (.declared i) = .ok types)
    (ht' : M.resolvedFields (.declared j) = .ok types') :
    M.nameTable (.declared j) <+: M.nameTable (.declared i) := by
  rw [hM.nameTable_sole hi hbase hb hkind ht ht']
  refine prefix_putAll (nameTable_nodup _) fun e he value hvalue => ?_
  obtain ⟨f, hf, rfl⟩ := List.mem_map.mp he
  obtain ⟨hargument, hfield⟩ := hkeeps f hf
  cases value with
  | false => exact absurd hvalue hargument
  | true => exact hfield hvalue

end Formed

end Model

namespace Model

variable {M : Model} {b c : ClassRef} {d d' : Description}

theorem names_described (he : M.isEnumClass c = false) (h : M.describe (.cls c) = .ok d) :
    ∃ types, M.resolvedFields c = .ok types ∧
      d.fields.map Field.name = ((M.nameTable c).filter (·.2)).map Prod.fst := by
  rcases (describeClass_ok h).2 with ⟨henum, _⟩ | ⟨_, types, htypes, hfields⟩
  · rw [he] at henum
    cases henum
  · exact ⟨types, htypes, by rw [(describeFields_ok hfields).1, fieldNames_eq htypes]⟩

theorem style_of_field (h : M.describe (.cls c) = .ok d) {f : Field} (hf : f ∈ d.fields) :
    ∃ i, c = .declared i ∧ M.style? c ≠ none := by
  obtain ⟨i, _, rfl⟩ := declared_of_field h hf
  refine ⟨i, rfl, fun hnone => ?_⟩
  rcases (describeClass_ok h).2 with ⟨_, _, hnil⟩ | ⟨henum, _⟩
  · rw [hnil] at hf
    exact absurd hf List.not_mem_nil
  · rw [isEnumClass_declared, hnone] at henum
    cases henum

theorem Formed.fields_begin (hM : M.Formed) (hbase : M.bases c = [b]) (hkind : M.OfOneKind c b)
    (hkeeps : M.KeepsFields c b) (hb : M.describe (.cls b) = .ok d) (hc : M.describe (.cls c) = .ok d') :
    d.fields.map Field.name <+: d'.fields.map Field.name := by
  cases hfields : d.fields with
  | nil => exact List.nil_prefix
  | cons f fs =>
      obtain ⟨j, rfl, hstyle⟩ := style_of_field hb (hfields ▸ List.mem_cons_self)
      have hmem : .declared j ∈ M.bases c := hbase ▸ List.mem_singleton_self _
      obtain ⟨i, hi, rfl⟩ := declared_of_bases hmem
      have hc' : M.isEnumClass (.declared i) = false := by
        rw [isEnumClass_declared]
        rcases style_of_bases hmem with h | h | h <;> rw [h] <;> rfl
      have hb' : M.isEnumClass (.declared j) = false := by
        rw [isEnumClass_declared]
        exact Option.isNone_eq_false_iff.mpr (Option.isSome_iff_ne_none.mpr hstyle)
      obtain ⟨types, ht, hnames⟩ := names_described hc' hc
      obtain ⟨types', ht', hnames'⟩ := names_described hb' hb
      rw [← hfields, hnames, hnames']
      exact ((hM.nameTable_begins hi hbase hstyle hkind hkeeps ht ht').filter _).map _

def fleet : Model where
  classes := [
    { name := "Vehicle", body := .record .dataclass []
        [("id", .builtin .str), ("wheels", .qualified .classVar (.builtin .int)),
         ("tag", .builtin .str)] },
    { name := "Car", body := .record .dataclass [.cls (.declared 0)]
        [("seats", .builtin .int), ("tag", .builtin .int)] }]

end Model

namespace Compiler

def Comprises (M : Model) (o : Options) (t : TypeExpr) (doc : Document) (pieces : List Piece) : Prop :=
  ∃ root, t = .cls root ∧ M.Covers root pieces ∧ doc.blocks = pieces.flatMap (pieceBlocks M o root)

def placesOf (ls : List Line) : List (String × Int) := ls.map fun l => (l.name, l.ordinal)

def numbered (names : List String) : List (String × Int) :=
  names.zipIdx.map fun e => (Name.sanitize e.1, (e.2 : Int) + 1)

variable {M : Model} {o : Options} {root b c : ClassRef} {ps : List Piece} {ls : List Line}
  {d d' : Description}

theorem numbered_begins {names names' : List String} (h : names <+: names') :
    numbered names <+: numbered names' := by
  obtain ⟨rest, rfl⟩ := h
  rw [numbered, numbered, List.zipIdx_append, List.map_append]
  exact List.prefix_append _ _

theorem Filled.places {fs : List Field} (h : Filled M o root c fs ls ps) :
    placesOf ls = numbered (fs.map Field.name) := by
  induction h with
  | none ps => rfl
  | @field fs ls ps ps' f _ _ _ ih =>
      rw [placesOf, List.map_append, List.map_append, numbered, List.zipIdx_append, List.map_append]
      refine congrArg₂ _ ih ?_
      simp [fieldLine]

theorem Sound.places (h : Sound M o root ps) (hls : .message c ls ∈ ps)
    (hc : M.describe (.cls c) = .ok d) : placesOf ls = numbered (d.fields.map Field.name) := by
  obtain ⟨later, earlier, rfl⟩ := List.append_of_mem hls
  obtain ⟨_, _, _, x, hx, hfill⟩ := h.fits
  cases hx.symm.trans hc
  exact hfill.places

theorem compile_places {t : TypeExpr} {doc : Document} (h : compile M o t = .ok doc) :
    ∃ pieces, Comprises M o t doc pieces ∧ ∀ c d ls, M.describe (.cls c) = .ok d →
      .message c ls ∈ pieces → placesOf ls = numbered (d.fields.map Field.name) := by
  obtain ⟨root, ps, s, rfl, _, hat, hroot, rfl⟩ := compile_ok h
  refine ⟨ps.reverse, ⟨root, rfl, hat.sound.covers hroot, hat.blocks⟩, fun c d ls hc hls => ?_⟩
  exact hat.sound.places (List.mem_reverse.mp hls) hc

/-- The described names of a class begin with those of its sole base, and the lines of its message
with the names and numbers that they have in the message of the base, whatever the documents. -/
theorem inherited_places (hM : M.Formed) (hbase : M.bases c = [b]) (hkind : M.OfOneKind c b)
    (hkeeps : M.KeepsFields c b) (hb : M.describe (.cls b) = .ok d) (hc : M.describe (.cls c) = .ok d') :
    d.fields.map Field.name <+: d'.fields.map Field.name ∧
      ∀ o o' t t' doc doc', compile M o t = .ok doc → compile M o' t' = .ok doc' →
        ∃ pieces pieces', Comprises M o t doc pieces ∧ Comprises M o' t' doc' pieces' ∧
          ∀ ls ls', .message b ls ∈ pieces → .message c ls' ∈ pieces' → placesOf ls <+: placesOf ls' := by
  have hbegins := hM.fields_begin hbase hkind hkeeps hb hc
  refine ⟨hbegins, fun o o' t t' doc doc' h h' => ?_⟩
  obtain ⟨pieces, hpieces, hplaces⟩ := compile_places h
  obtain ⟨pieces', hpieces', hplaces'⟩ := compile_places h'
  refine ⟨pieces, pieces', hpieces, hpieces', fun ls ls' hls hls' => ?_⟩
  rw [hplaces b d ls hb hls, hplaces' c d' ls' hc hls']
  exact numbered_begins hbegins

theorem fleet_inherited_places : Model.fleet.Formed ∧ ∃ d d' doc doc',
    Model.fleet.describe (.cls (.declared 0)) = .ok d ∧ d.fields.map Field.name = ["id", "tag"] ∧
    Model.fleet.describe (.cls (.declared 1)) = .ok d' ∧
    d'.fields.map Field.name = ["id", "tag", "seats"] ∧
    d.fields.map Field.name <+: d'.fields.map Field.name ∧
    compile .fleet default (.cls (.declared 0)) = .ok doc ∧
    compile .fleet default (.cls (.declared 1)) = .ok doc' ∧ ∃ pieces pieces',
      Comprises .fleet default (.cls (.declared 0)) doc pieces ∧
      Comprises .fleet default (.cls (.declared 1)) doc' pieces' ∧
      ∀ ls ls', .message (.declared 0) ls ∈ pieces → .message (.declared 1) ls' ∈ pieces' →
        placesOf ls <+: placesOf ls' := by
  have hM : Model.fleet.Formed := by decide +kernel
  have hkeeps : Model.fleet.KeepsFields (.declared 1) (.declared 0) := by decide +kernel
  obtain ⟨d, hd, hnames⟩ : ∃ d, Model.fleet.describe (.cls (.declared 0)) = .ok d ∧
      decide (d.fields.map Field.name = ["id", "tag"]) = true := exists_of_any (by decide +kernel)
  obtain ⟨d', hd', hnames'⟩ : ∃ d, Model.fleet.describe (.cls (.declared 1)) = .ok d ∧
      decide (d.fields.map Field.name = ["id", "tag", "seats"]) = true :=
    exists_of_any (by decide +kernel)
  obtain ⟨doc, hdoc⟩ : ∃ doc, compile .fleet default (.cls (.declared 0)) = .ok doc :=
    exists_of_isSome (by decide +kernel)
  obtain ⟨doc', hdoc'⟩ : ∃ doc, compile .fleet default (.cls (.declared 1)) = .ok doc :=
    exists_of_isSome (by decide +kernel)
  obtain ⟨hbegins, hplaces⟩ := inherited_places hM rfl (Or.inl ⟨rfl, rfl⟩) hkeeps hd hd'
  exact ⟨hM, d, d', doc, doc', hd, of_decide_eq_true hnames, hd', of_decide_eq_true hnames', hbegins,
    hdoc, hdoc', hplaces _ _ _ _ _ _ hdoc hdoc'⟩

end Compiler

end ClassSchema
