import StateSpectre.StoreStep

/-!
# What a step can do to the catalog

The catalog of canonical objects changes in a few ways too (`CatalogStep`): an
object is created by a search that found a run for it, it is changed without
becoming another one, and it is reclaimed. The searches under way are part of the
picture, as they carry the ids of the objects they will create, or hand out
candidates for. What the jobs and the manifests go through does not matter here,
as long as no job is forgotten.

So an id is never given to a second object, and stands for the same shard for
ever (`Names.step`), and a committed object stays as it is until it is reclaimed
(`Kept.step`).
-/

namespace StateSpectre

variable {g : Guards} {x y : Catalog × List Purpose} {oid : ℕ}

/-! ## Transitions -/

/-- The object that a search is to create. -/
def Purpose.created : Purpose → Option ℕ
  | .create _ oid => some oid
  | .offload .. | .prefetch .. | .candidate .. | .restore .. => none

/-- The object that a search is to hand out a candidate for. -/
def Purpose.compared : Purpose → Option ℕ
  | .candidate _ _ oid _ => some oid
  | .offload .. | .prefetch .. | .create .. | .restore .. => none

/-- An object after a change is of the same shard, and of the same bytes once it is
    committed. -/
structure CanonicalObject.Continues (o o' : CanonicalObject) : Prop where
  key : o'.key = o.key
  keyStr : o'.keyStr = o.keyStr
  nbytes : o'.nbytes = o.nbytes
  committed : o.state ≠ .creating → o'.state ≠ .creating ∧
    o'.contentHashLo = o.contentHashLo ∧ o'.contentHashHi = o.contentHashHi

/-- The transitions of the catalog, with the searches under way. An object is reclaimed
    when its location may be dropped. -/
inductive CatalogStep (g : Guards) : Catalog × List Purpose → Catalog × List Purpose → Prop
  -- Searches that begin and end.
  | seek {k P p} : p.created = none → p.compared = none → CatalogStep g (k, P) (k, p :: P)
  | seekCreate {k P req} :
      CatalogStep g (k, P)
        ({ k with nextObjectId := k.nextObjectId + 1 }, .create req k.nextObjectId :: P)
  | seekCandidate {k P req tid oid verify} :
      k.objectByKey.lookup (canonicalKeyString req.key) = some oid →
      CatalogStep g (k, P)
        ({ k with nextObjectId := k.nextObjectId + 1 }, .candidate req tid oid verify :: P)
  | draw {k P} : CatalogStep g (k, P) ({ k with nextObjectId := k.nextObjectId + 1 }, P)
  | settle {k P P'} : P'.Subperm P → CatalogStep g (k, P) (k, P')
  -- The life of an object.
  | create {k P req oid obj} : obj.keyStr = canonicalKeyString req.key →
      CatalogStep g (k, .create req oid :: P)
        ({ k with
            objects := k.objects.insert oid obj
            objectByKey := k.objectByKey.insert obj.keyStr oid }, P)
  | modify {k P oid f} : (∀ o, k.objects.lookup oid = some o → o.Continues (f o)) →
      CatalogStep g (k, P) ({ k with objects := k.objects.modify oid f }, P)
  | reclaim {k P oid o st} : k.objects.lookup oid = some o →
      g.dropLocation st (canonicalTid oid) →
      CatalogStep g (k, P)
        ({ k with
            objects := k.objects.erase oid
            objectByKey := k.objectByKey.erase o.keyStr }, P)
  -- The other tables.
  | admin {k P jobs manifests latestSealed nextLaunchEpoch} :
      (∀ uid, (k.jobs.lookup uid).isSome → (jobs.lookup uid).isSome) →
      CatalogStep g (k, P)
        ({ k with
            jobs := jobs
            manifests := manifests
            latestSealed := latestSealed
            nextLaunchEpoch := nextLaunchEpoch }, P)
  | rehash {k P objects} : k.objects.Reordered objects →
      CatalogStep g (k, P) ({ k with objects := objects }, P)

abbrev CatalogSteps (g : Guards) :
    Catalog × List Purpose → Catalog × List Purpose → Prop :=
  Relation.ReflTransGen (CatalogStep g)

/-! ## Ids -/

/-- The ids of the objects that searches are to create. -/
def createdIds (P : List Purpose) : List ℕ := P.filterMap Purpose.created

theorem createdIds_subperm {P P' : List Purpose} (h : P'.Subperm P) :
    (createdIds P').Subperm (createdIds P) :=
  subperm_filterMap h

theorem createdIds_cons_of_none {P : List Purpose} {p : Purpose} (h : p.created = none) :
    createdIds (p :: P) = createdIds P := by
  rw [createdIds, List.filterMap_cons, h, createdIds]

/-- An id that was drawn, and that no search is to use, is not used by one later. -/
theorem CatalogStep.fresh (hstep : CatalogStep g x y) (hfresh : oid ∉ createdIds x.2)
    (hdrawn : oid < x.1.nextObjectId) : oid ∉ createdIds y.2 ∧ oid < y.1.nextObjectId := by
  cases hstep with
  | seek hc =>
    rw [createdIds_cons_of_none hc]
    exact ⟨hfresh, hdrawn⟩
  | seekCreate =>
    exact ⟨List.not_mem_cons_of_ne_of_not_mem hdrawn.ne hfresh, Nat.lt_succ_of_lt hdrawn⟩
  | seekCandidate | draw => exact ⟨hfresh, Nat.lt_succ_of_lt hdrawn⟩
  | settle hP => exact ⟨fun hm => hfresh ((createdIds_subperm hP).subset hm), hdrawn⟩
  | create => exact ⟨List.not_mem_of_not_mem_cons hfresh, hdrawn⟩
  | modify | reclaim | admin | rehash => exact ⟨hfresh, hdrawn⟩

/-- The id `oid` is of an object of the shard `keyStr`, if of any, and no search is to
    create it. -/
structure Names (x : Catalog × List Purpose) (keyStr : List Char) (oid : ℕ) : Prop where
  drawn : oid < x.1.nextObjectId
  fresh : oid ∉ createdIds x.2
  keyStr : ∀ o, x.1.objects.lookup oid = some o → o.keyStr = keyStr

/-- An id stands for the same shard for ever. -/
theorem Names.step {keyStr : List Char} (h : Names x keyStr oid) (hstep : CatalogStep g x y) :
    Names y keyStr oid := by
  obtain ⟨hdrawn, hfresh, hkey⟩ := h
  obtain ⟨hfresh', hdrawn'⟩ := hstep.fresh hfresh hdrawn
  refine ⟨hdrawn', hfresh', fun o ho => ?_⟩
  cases hstep with
  | create =>
    rw [Table.lookup_insert, if_neg (List.ne_of_not_mem_cons hfresh)] at ho
    exact hkey o ho
  | modify hf =>
    obtain ⟨rfl, o', ho', rfl⟩ | ⟨-, ho⟩ := Table.lookup_modify_eq_some.1 ho
    · exact (hf o' ho').keyStr.trans (hkey o' ho')
    · exact hkey o ho
  | reclaim => exact hkey o (Table.lookup_of_lookup_erase ho)
  | rehash hr => exact hkey o (hr.lookup_eq _ ▸ ho)
  | _ => exact hkey o ho

/-- Objects, the index and the searches agree on what the ids stand for. -/
structure Indexed (x : Catalog × List Purpose) : Prop where
  drawn : ∀ oid o, x.1.objects.lookup oid = some o → oid < x.1.nextObjectId
  created : ∀ oid ∈ createdIds x.2, oid < x.1.nextObjectId ∧ x.1.objects.lookup oid = none
  once : (createdIds x.2).Nodup
  index : ∀ keyStr oid, x.1.objectByKey.lookup keyStr = some oid → Names x keyStr oid
  compared : ∀ req tid oid verify, Purpose.candidate req tid oid verify ∈ x.2 →
    Names x (canonicalKeyString req.key) oid

theorem Indexed.step (h : Indexed x) (hstep : CatalogStep g x y) : Indexed y := by
  obtain ⟨hdrawn, hcreated, honce, hindex, hcompared⟩ := h
  have hname : ∀ {keyStr oid}, Names x keyStr oid → Names y keyStr oid := fun h => h.step hstep
  cases hstep with
  | seek hc hv =>
    rw [← createdIds_cons_of_none hc] at hcreated honce
    refine ⟨hdrawn, hcreated, honce, fun ks oid hk => hname (hindex ks oid hk), ?_⟩
    rintro req tid oid verify (_ | ⟨_, hm⟩)
    · cases hv
    · exact hname (hcompared _ _ _ _ hm)
  | @seekCreate k P req =>
    refine ⟨fun oid o ho => Nat.lt_succ_of_lt (hdrawn oid o ho), ?_, ?_,
      fun ks oid hk => hname (hindex ks oid hk), ?_⟩
    · refine List.forall_mem_cons.2 ⟨⟨Nat.lt_succ_self _, ?_⟩, fun oid hm =>
        ⟨Nat.lt_succ_of_lt (hcreated oid hm).1, (hcreated oid hm).2⟩⟩
      exact Option.eq_none_iff_forall_ne_some.2 fun o ho => (hdrawn _ o ho).false
    · exact List.nodup_cons.2 ⟨fun hm => (hcreated _ hm).1.false, honce⟩
    · rintro req tid oid verify (_ | ⟨_, hm⟩)
      exact hname (hcompared _ _ _ _ hm)
  | seekCandidate hkey =>
    refine ⟨fun oid o ho => Nat.lt_succ_of_lt (hdrawn oid o ho), fun oid hm =>
        ⟨Nat.lt_succ_of_lt (hcreated oid hm).1, (hcreated oid hm).2⟩, honce,
      fun ks oid hk => hname (hindex ks oid hk), ?_⟩
    rintro req tid oid verify (_ | ⟨_, hm⟩)
    · exact hname (hindex _ _ hkey)
    · exact hname (hcompared _ _ _ _ hm)
  | draw =>
    exact ⟨fun oid o ho => Nat.lt_succ_of_lt (hdrawn oid o ho), fun oid hm =>
        ⟨Nat.lt_succ_of_lt (hcreated oid hm).1, (hcreated oid hm).2⟩, honce,
      fun ks oid hk => hname (hindex ks oid hk), fun _ _ _ _ hm => hname (hcompared _ _ _ _ hm)⟩
  | settle hP =>
    have hsub := createdIds_subperm hP
    obtain ⟨l, hperm, hl⟩ := id hsub
    exact ⟨hdrawn, fun oid hm => hcreated oid (hsub.subset hm),
      hperm.nodup_iff.1 (honce.sublist hl),
      fun ks oid hk => hname (hindex ks oid hk),
      fun _ _ _ _ hm => hname (hcompared _ _ _ _ (hP.subset hm))⟩
  | @create k P req oid obj hobj =>
    obtain ⟨hnew, honce⟩ := List.nodup_cons.1 honce
    have hlt := (hcreated oid List.mem_cons_self).1
    refine ⟨fun oid' o ho => ?_, fun oid' hm => ?_, honce, fun ks oid' hk => ?_,
      fun _ _ _ _ hm => hname (hcompared _ _ _ _ (List.mem_cons_of_mem _ hm))⟩
    · rcases Table.lookup_insert_eq_some.1 ho with ⟨rfl, -⟩ | ⟨-, ho⟩
      · exact hlt
      · exact hdrawn oid' o ho
    · obtain ⟨hlt', hnone⟩ := hcreated oid' (List.mem_cons_of_mem _ hm)
      refine ⟨hlt', ?_⟩
      have hne : oid' ≠ oid := fun he => hnew (he ▸ hm)
      rwa [Table.lookup_insert, if_neg hne]
    · rcases Table.lookup_insert_eq_some.1 hk with ⟨he, rfl⟩ | ⟨-, hk⟩
      · refine ⟨hlt, hnew, fun o ho => ?_⟩
        rw [AList.lookup_insert] at ho
        rw [he, Option.some.inj ho]
      · exact hname (hindex ks oid' hk)
  | modify hf =>
    refine ⟨fun oid o ho => ?_, fun oid hm => ⟨(hcreated oid hm).1, ?_⟩, honce,
      fun ks oid hk => hname (hindex ks oid hk), fun _ _ _ _ hm => hname (hcompared _ _ _ _ hm)⟩
    · obtain ⟨rfl, o', ho', -⟩ | ⟨-, ho⟩ := Table.lookup_modify_eq_some.1 ho
      · exact hdrawn _ o' ho'
      · exact hdrawn oid o ho
    · rw [Table.lookup_modify]
      split
      · next he => rw [← he, (hcreated oid hm).2, Option.map_none]
      · exact (hcreated oid hm).2
  | reclaim =>
    refine ⟨fun oid o ho => hdrawn oid o (Table.lookup_of_lookup_erase ho),
      fun oid hm => ⟨(hcreated oid hm).1, ?_⟩, honce,
      fun ks oid hk => hname (hindex ks oid (Table.lookup_of_lookup_erase hk)),
      fun _ _ _ _ hm => hname (hcompared _ _ _ _ hm)⟩
    rw [Table.lookup_erase]
    split
    · rfl
    · exact (hcreated oid hm).2
  | admin =>
    exact ⟨hdrawn, hcreated, honce, fun ks oid hk => hname (hindex ks oid hk),
      fun _ _ _ _ hm => hname (hcompared _ _ _ _ hm)⟩
  | rehash hr =>
    exact ⟨fun oid o ho => hdrawn oid o (hr.lookup_eq oid ▸ ho),
      fun oid hm => ⟨(hcreated oid hm).1, (hr.lookup_eq oid).trans (hcreated oid hm).2⟩, honce,
      fun ks oid hk => hname (hindex ks oid hk), fun _ _ _ _ hm => hname (hcompared _ _ _ _ hm)⟩

/-! ## Objects that are kept -/

theorem CanonicalObject.Continues.trans {o o' o'' : CanonicalObject} (h : o.Continues o')
    (h' : o'.Continues o'') : o.Continues o'' where
  key := h'.key.trans h.key
  keyStr := h'.keyStr.trans h.keyStr
  nbytes := h'.nbytes.trans h.nbytes
  committed hc := by
    obtain ⟨hc', hlo, hhi⟩ := h.committed hc
    obtain ⟨hc'', hlo', hhi'⟩ := h'.committed hc'
    exact ⟨hc'', hlo'.trans hlo, hhi'.trans hhi⟩

/-- The committed object `o` is still there. -/
structure Kept (x : Catalog × List Purpose) (oid : ℕ) (o : CanonicalObject) : Prop where
  fresh : oid ∉ createdIds x.2
  drawn : oid < x.1.nextObjectId
  object : ∃ o', x.1.objects.lookup oid = some o' ∧ o.Continues o'

/-- A committed object whose location may not be dropped is kept. -/
theorem Kept.step {o : CanonicalObject} (h : Kept x oid o)
    (hg : ∀ st, ¬g.dropLocation st (canonicalTid oid)) (hstep : CatalogStep g x y) :
    Kept y oid o := by
  obtain ⟨hfresh, hdrawn, o', ho', hcont⟩ := h
  obtain ⟨hfresh', hdrawn'⟩ := hstep.fresh hfresh hdrawn
  refine ⟨hfresh', hdrawn', ?_⟩
  cases hstep with
  | create =>
    refine ⟨o', ?_, hcont⟩
    rwa [Table.lookup_insert, if_neg (List.ne_of_not_mem_cons hfresh)]
  | @modify k P oid' f hf =>
    by_cases he : oid = oid'
    · subst he
      refine ⟨f o', ?_, hcont.trans (hf o' ho')⟩
      rw [Table.lookup_modify, if_pos rfl, ho', Option.map_some]
    · refine ⟨o', ?_, hcont⟩
      rwa [Table.lookup_modify, if_neg he]
  | @reclaim k P oid' o'' st ho'' hd =>
    have hne : oid ≠ oid' := fun he => hg st (he ▸ hd)
    refine ⟨o', ?_, hcont⟩
    rwa [Table.lookup_erase, if_neg hne]
  | rehash hr => exact ⟨o', (hr.lookup_eq oid).trans ho', hcont⟩
  | _ => exact ⟨o', ho', hcont⟩

/-- If there is an object under the id `oid`, it was there in the catalog `k₀`. -/
structure Descends (k₀ : Catalog) (x : Catalog × List Purpose) (oid : ℕ) : Prop where
  fresh : oid ∉ createdIds x.2
  drawn : oid < x.1.nextObjectId
  object : ∀ o', x.1.objects.lookup oid = some o' →
    ∃ o, k₀.objects.lookup oid = some o ∧ o.Continues o'

/-- No object is created under an id that was drawn before. -/
theorem Descends.step {k₀ : Catalog} (h : Descends k₀ x oid) (hstep : CatalogStep g x y) :
    Descends k₀ y oid := by
  obtain ⟨hfresh, hdrawn, hobj⟩ := h
  obtain ⟨hfresh', hdrawn'⟩ := hstep.fresh hfresh hdrawn
  refine ⟨hfresh', hdrawn', fun o' ho' => ?_⟩
  cases hstep with
  | create =>
    rw [Table.lookup_insert, if_neg (List.ne_of_not_mem_cons hfresh)] at ho'
    exact hobj o' ho'
  | modify hf =>
    obtain ⟨rfl, o'', ho'', rfl⟩ | ⟨-, ho'⟩ := Table.lookup_modify_eq_some.1 ho'
    · obtain ⟨o, ho, hcont⟩ := hobj o'' ho''
      exact ⟨o, ho, hcont.trans (hf o'' ho'')⟩
    · exact hobj o' ho'
  | reclaim => exact hobj o' (Table.lookup_of_lookup_erase ho')
  | rehash hr => exact hobj o' (hr.lookup_eq _ ▸ ho')
  | _ => exact hobj o' ho'

/-- No job is forgotten. -/
theorem CatalogStep.jobs {uid : JobUID} (hstep : CatalogStep g x y)
    (h : (x.1.jobs.lookup uid).isSome) : (y.1.jobs.lookup uid).isSome := by
  cases hstep with
  | admin hj => exact hj uid h
  | _ => exact h

end StateSpectre
