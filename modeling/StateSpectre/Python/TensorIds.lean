import StateSpectre.Export
import StateSpectre.Copies

/-!
# The ids of tensors

A tensor is known to the daemon by an id of 64 bits, which comes from one of three places. A rank
that evicts a tensor without an id draws one from a counter of its process, and puts its rank into
the top bits (`IdSource.nextTensorId`). The daemon makes up the ids of the tensors of canonical
objects, and of candidates, with the top bit as a mark. Locations are kept by id, so an id should
tell which of the three it is, and of what (`TensorName`).

But the rank gets 24 bits, and the last of them is the mark. The first id that the rank `2 ^ 23`
draws is that of the first object, so that the object is looked for where the tensor of the rank
is (`rank_takes_object`); and two ranks that differ by `2 ^ 24` draw the same ids. These are the
only ways in which ids meet (`tensorIds_apart`).
-/

namespace StateSpectre

/-! ## Generated ids -/

/-- What a process draws the ids of its tensors from: its rank, and a counter. -/
structure IdSource where
  rankId : ℕ
  localTensorCtr : ℕ := 1
  deriving DecidableEq, Repr

/-- `next_tensor_id`: 24 bits of the rank, and 40 of the counter. -/
def IdSource.nextTensorId (x : IdSource) : ℕ × IdSource :=
  ((x.rankId &&& 0xFFFFFF) <<< 40 ||| (x.localTensorCtr &&& 0xFFFFFFFFFF),
    { x with localTensorCtr := (x.localTensorCtr + 1) % 2 ^ 64 })

theorem IdSource.nextTensorId_eq (rank counter : ℕ) :
    (nextTensorId ⟨rank, counter⟩).1 = rank % 2 ^ 24 * 2 ^ 40 + counter % 2 ^ 40 := by
  have hrank : rank &&& 0xFFFFFF = rank % 2 ^ 24 := Nat.and_two_pow_sub_one_eq_mod rank 24
  have hcounter : counter &&& 0xFFFFFFFFFF = counter % 2 ^ 40 :=
    Nat.and_two_pow_sub_one_eq_mod counter 40
  rw [nextTensorId, hrank, hcounter, ← Nat.shiftLeft_add_eq_or_of_lt (by omega),
    Nat.shiftLeft_eq]

/-! ## Names -/

/-- What an id is of: a tensor of a rank, an object, or a candidate. -/
inductive TensorName where
  | generated (rank counter : ℕ)
  | canonical (objectId : ℕ)
  | candidate (seq : ℕ)
  deriving DecidableEq, Repr

namespace TensorName

def tid : TensorName → ℕ
  | generated rank counter => (IdSource.nextTensorId ⟨rank, counter⟩).1
  | canonical objectId => canonicalTid objectId
  | candidate seq => candidateTid seq

/-- Ranks have 32 bits, counters are below `2 ^ 40`, and numbers of objects and candidates below
    `2 ^ 62`. -/
def InRange : TensorName → Prop
  | generated rank counter => rank < 2 ^ 32 ∧ counter < 2 ^ 40
  | canonical objectId => objectId < 2 ^ 62
  | candidate seq => seq < 2 ^ 62

/-- The last of the 24 bits of the rank, which is that of the mark, is clear. -/
def MarkClear : TensorName → Prop
  | generated rank _ => rank % 2 ^ 24 < 2 ^ 23
  | _ => True

/-- The name with the bits of the rank that go into the id. -/
def low : TensorName → TensorName
  | generated rank counter => generated (rank % 2 ^ 24) counter
  | canonical objectId => canonical objectId
  | candidate seq => candidate seq

/-- The daemon makes up the id. -/
def Synthetic : TensorName → Prop
  | generated _ _ => False
  | _ => True

instance (a : TensorName) : Decidable a.InRange := by
  cases a <;> unfold InRange <;> infer_instance

instance (a : TensorName) : Decidable a.MarkClear := by
  cases a <;> unfold MarkClear <;> infer_instance

variable {a b : TensorName}

theorem tid_canonical {oid : ℕ} (h : oid < 2 ^ 62) : (canonical oid).tid = 2 ^ 63 + oid := by
  have hlt : oid < 2 ^ 63 := by omega
  exact (Nat.two_pow_add_eq_or_of_lt hlt 1).symm

theorem tid_candidate {seq : ℕ} (h : seq < 2 ^ 62) :
    (candidate seq).tid = 2 ^ 63 + 2 ^ 62 + seq := by
  have hbit : candidateBit ||| seq = 2 ^ 62 + seq := (Nat.two_pow_add_eq_or_of_lt h 1).symm
  have hlt : 2 ^ 62 + seq < 2 ^ 63 := by omega
  rw [tid, candidateTid, Nat.or_assoc, hbit, Nat.add_assoc]
  exact (Nat.two_pow_add_eq_or_of_lt hlt 1).symm

theorem tid_generated (rank : ℕ) {counter : ℕ} (hc : counter < 2 ^ 40) :
    (generated rank counter).tid = rank % 2 ^ 24 * 2 ^ 40 + counter := by
  rw [tid, IdSource.nextTensorId_eq, Nat.mod_eq_of_lt hc]

/-- What an id tells of its name, if the mark is clear: each kind has an interval of its own. -/
def ofTid (t : ℕ) : TensorName :=
  if t < 2 ^ 63 then generated (t / 2 ^ 40) (t % 2 ^ 40)
  else if t < 2 ^ 63 + 2 ^ 62 then canonical (t - 2 ^ 63)
  else candidate (t - (2 ^ 63 + 2 ^ 62))

theorem ofTid_tid (ha : a.InRange) (hm : a.MarkClear) : ofTid a.tid = a.low := by
  cases a with
  | generated rank counter =>
    obtain ⟨-, hc⟩ := ha
    have hrank : rank % 2 ^ 24 < 2 ^ 23 := hm
    rw [tid_generated rank hc, ofTid, if_pos (by omega), low, generated.injEq]
    omega
  | canonical oid =>
    have hoid : oid < 2 ^ 62 := ha
    rw [tid_canonical ha, ofTid, if_neg (by omega), if_pos (by omega), Nat.add_sub_cancel_left, low]
  | candidate seq =>
    rw [tid_candidate ha, ofTid, if_neg (by omega), if_neg (by omega), Nat.add_sub_cancel_left, low]

theorem tid_low (a : TensorName) : a.low.tid = a.tid := by
  cases a with
  | generated rank counter =>
    rw [low, tid, IdSource.nextTensorId_eq, tid, IdSource.nextTensorId_eq, Nat.mod_mod]
  | canonical | candidate => rfl

/-- Names have the same id if and only if they agree but for the upper bits of the rank. -/
theorem tid_eq_iff (ha : a.InRange) (hb : b.InRange) (hma : a.MarkClear) (hmb : b.MarkClear) :
    a.tid = b.tid ↔ a.low = b.low := by
  refine ⟨fun h => ?_, fun h => ?_⟩
  · rw [← ofTid_tid ha hma, h, ofTid_tid hb hmb]
  · rw [← tid_low a, h, tid_low]

/-- The mark tells the ids that the daemon makes up, if and only if the rank leaves it alone. -/
theorem isCanonicalTid_tid_iff (ha : a.InRange) :
    (isCanonicalTid a.tid ↔ a.Synthetic) ↔ a.MarkClear := by
  cases a with
  | generated rank counter =>
    obtain ⟨-, hc⟩ := ha
    have hmark : isCanonicalTid (generated rank counter).tid ↔ 2 ^ 23 ≤ rank % 2 ^ 24 := by
      rw [isCanonicalTid, tid_generated rank hc, Nat.testBit_eq_decide_div_mod_eq,
        decide_eq_true_iff]
      omega
    rw [hmark, MarkClear, Synthetic, iff_false, not_le]
  | canonical oid =>
    exact iff_of_true (iff_of_true (isCanonicalTid_canonicalTid oid) trivial) trivial
  | candidate seq =>
    rw [tid, candidateTid, Nat.or_assoc]
    exact iff_of_true (iff_of_true (isCanonicalTid_canonicalTid _) trivial) trivial

end TensorName

/-! ## Locations -/

/-- Two names have ids of their own, of which the mark tells whether the daemon makes them up, and
    to record or to drop the location of one leaves that of the other alone. -/
structure TensorName.Apart (a b : TensorName) : Prop where
  tid : a.tid = b.tid ↔ a = b
  mark : (isCanonicalTid a.tid ↔ a.Synthetic) ∧ (isCanonicalTid b.tid ↔ b.Synthetic)
  locations : a ≠ b → ∀ (st : Store) (v : ℕ) (kind : LocationKind) (slotId coldRef nbytes : ℕ),
    (st.updateLocationIfLatest a.tid v kind slotId coldRef nbytes).locations.lookup b.tid =
        st.locations.lookup b.tid ∧
      (st.dropLocation a.tid).locations.lookup b.tid = st.locations.lookup b.tid

/-- Names are apart if and only if their ranks leave the mark alone and do not agree in the bits
    that go into the id. -/
theorem tensorIds_apart {a b : TensorName} (ha : a.InRange) (hb : b.InRange) :
    a.Apart b ↔ a.MarkClear ∧ b.MarkClear ∧ (a.low = b.low → a = b) := by
  constructor
  · rintro ⟨htid, ⟨hma, hmb⟩, -⟩
    refine ⟨(TensorName.isCanonicalTid_tid_iff ha).1 hma,
      (TensorName.isCanonicalTid_tid_iff hb).1 hmb, fun hlow => htid.1 ?_⟩
    rw [← TensorName.tid_low a, hlow, TensorName.tid_low]
  · rintro ⟨hma, hmb, hlow⟩
    have hiff : a.tid = b.tid ↔ a = b :=
      ⟨fun h => hlow ((TensorName.tid_eq_iff ha hb hma hmb).1 h), fun h => h ▸ rfl⟩
    refine ⟨hiff, ⟨(TensorName.isCanonicalTid_tid_iff ha).2 hma,
      (TensorName.isCanonicalTid_tid_iff hb).2 hmb⟩, fun hne st v kind slotId coldRef nbytes => ?_⟩
    have htid : b.tid ≠ a.tid := fun h => hne (hiff.1 h.symm)
    refine ⟨Store.lookup_updateLocationIfLatest htid, ?_⟩
    exact (Table.lookup_erase ..).trans (if_neg htid)

/-- A rank beyond `2 ^ 24` and one below, with the same counter. -/
theorem tensorIds_apart_farRank :
    (TensorName.generated (2 ^ 24) 1).Apart (.generated 5 1) ∧
      (TensorName.generated (2 ^ 24) 1).Apart (.canonical 1) :=
  ⟨(tensorIds_apart (by decide) (by decide)).2 (by decide),
    (tensorIds_apart (by decide) (by decide)).2 (by decide)⟩

/-- The first tensor that the rank `2 ^ 23` evicts. -/
def farTensor : TensorName := .generated (2 ^ 23) 1

/-- The rank `2 ^ 23` offloads it, to the slot 1. -/
def offloadsFar : List Action :=
  [.rpc 2 (.offload { rankId := 2 ^ 23, rankEpoch := 2, tensorId := farTensor.tid, version := 1
                      nbytes := 4 }),
    .rpc 2 (.d2hSubmitted { rankId := 2 ^ 23, rankEpoch := 2, leaseId := 2, slotId := 1 }),
    .copyD2H 2 [[9]],
    .rpc 2 (.d2hComplete { rankId := 2 ^ 23, rankEpoch := 2, leaseId := 2
                           tensorId := farTensor.tid, version := 1, slotId := 1 })]

/-- The rank 0 creates the object 1 in the slot 0, and then the rank `2 ^ 23` evicts its first
    tensor, to the slot 1: it has the id of the object, which is looked for there from now on. And
    the ranks 0 and `2 ^ 24` draw the same ids. -/
theorem rank_takes_object :
    farTensor.InRange ∧ farTensor.tid = (TensorName.canonical 1).tid ∧
      (TensorName.generated (2 ^ 24) 1).tid = (TensorName.generated 0 1).tid ∧
      ∃ s o loc, Reached twoKept s ∧ s.catalog.objects.lookup 1 = some o ∧
        s.store.locations.lookup (canonicalTid 1) = some loc ∧ o.state = .validPinned ∧
        o.baseSlot = 0 ∧ s.store.mem 0 = [1] ∧ loc.slotId = 1 ∧ s.store.mem 1 = [9] := by
  refine ⟨by decide, by decide, by decide, ?_⟩
  exact exists_reachable₃ twoKept _
    ([registersJob, registers] ++ creates 1 1 1 [1] ++ [.rpc 2 (.register ⟨2 ^ 23, 8⟩)] ++
      offloadsFar) (by decide +kernel)

end StateSpectre
