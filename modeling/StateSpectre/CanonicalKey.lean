import Mathlib.Tactic.MkIffOfInductiveProp
import StateSpectre.Abi
import StateSpectre.Lib.PrefixCode

/-!
# Keys and hashes of canonical objects

The string under which a canonical object is indexed, and the 128-bit content
hash: two FNV-1a streams with different seeds.

The string is made of decimal numbers, each with a letter behind it that is no digit, also where
the colon does not fit into the buffer. So it can be read in one way only, and two keys have the
same string if and only if they agree in all that identifies a tensor
(`canonicalKeyString_eq_iff`).
-/

namespace StateSpectre

/-! ## The key string -/

/-- `append_u64`: the decimal digits and a colon, printed into a buffer of 21
    characters. A number of 20 digits leaves no room for the colon, and the
    terminating zero is appended in its place. -/
def appendU64 (v : ℕ) : List Char :=
  let digits := Nat.toDigits 10 v
  digits ++ [if digits.length < 20 then ':' else Char.ofNat 0]

/-- `append_i64`: the decimal digits with a sign if negative, and a colon. -/
def appendI64 (v : ℤ) : List Char :=
  (if v < 0 then ['-'] else []) ++ Nat.toDigits 10 v.natAbs ++ [':']

/-- The identity of a canonical tensor, without the names. -/
def canonicalKeyString (k : CanonicalTensorKey) : List Char :=
  appendU64 k.job.tenantId ++ appendU64 k.job.jobId ++ appendU64 k.job.launchEpoch ++
  appendU64 k.modelRole ++ appendU64 k.modelVersion ++ appendU64 k.paramId ++
  appendU64 k.paramFqnHash ++ appendU64 k.dtype ++ appendU64 k.layout ++ appendU64 k.nbytes ++
  appendU64 k.shapeHash ++ appendU64 k.strideHash ++ appendU64 k.ppRank ++ appendU64 k.tpRank ++
  appendU64 k.epRank ++ appendU64 k.etpRank ++ appendI64 k.expertId ++
  appendU64 k.shardOffset ++ appendU64 k.shardNbytes

/-! ## Reading the key string -/

theorem appendU64_prefixCode : PrefixCode appendU64 := by
  refine PrefixCode.of_terminated (p := fun x => x.isDigit) toDigits_injective
    (fun a x hx => Nat.isDigit_of_mem_toDigits (by decide) (by decide) hx) fun a => ?_
  split <;> decide

/-- A number with its sign. -/
def signedDigits (v : ℤ) : List Char :=
  (if v < 0 then ['-'] else []) ++ Nat.toDigits 10 v.natAbs

/-- No digit is a sign. -/
theorem dash_notMem_toDigits (n : ℕ) : '-' ∉ Nat.toDigits 10 n := fun h =>
  absurd (Nat.isDigit_of_mem_toDigits (by decide) (by decide) h) (by decide)

theorem signedDigits_injective : Function.Injective signedDigits := by
  intro v w h
  have hsign : v < 0 ↔ w < 0 := by
    have hdash : ∀ u : ℤ, u < 0 ↔ '-' ∈ signedDigits u := fun u => by
      by_cases hu : u < 0 <;> simp [signedDigits, hu, dash_notMem_toDigits]
    rw [hdash, hdash, h]
  have habs : v.natAbs = w.natAbs := by
    by_cases hv : v < 0
    · simp only [signedDigits, hv, hsign.1 hv, if_true] at h
      exact toDigits_injective (List.append_cancel_left h)
    · simp only [signedDigits, hv, mt hsign.2 hv, if_false] at h
      exact toDigits_injective h
  omega

theorem appendI64_prefixCode : PrefixCode appendI64 := by
  refine PrefixCode.of_terminated (p := fun x => x.isDigit ∨ x = '-') (w := signedDigits)
    signedDigits_injective (fun v x hx => ?_) fun _ => by decide
  rcases List.mem_append.1 hx with hx | hx
  · right
    split at hx
    · exact List.mem_singleton.1 hx
    · exact absurd hx List.not_mem_nil
  · exact .inl (Nat.isDigit_of_mem_toDigits (by decide) (by decide) hx)

/-- Two keys agree in all that identifies a tensor: everything but the names. -/
@[mk_iff]
structure CanonicalTensorKey.SameIdentity (a b : CanonicalTensorKey) : Prop where
  tenantId : a.job.tenantId = b.job.tenantId
  jobId : a.job.jobId = b.job.jobId
  launchEpoch : a.job.launchEpoch = b.job.launchEpoch
  modelRole : a.modelRole = b.modelRole
  modelVersion : a.modelVersion = b.modelVersion
  paramId : a.paramId = b.paramId
  paramFqnHash : a.paramFqnHash = b.paramFqnHash
  dtype : a.dtype = b.dtype
  layout : a.layout = b.layout
  nbytes : a.nbytes = b.nbytes
  shapeHash : a.shapeHash = b.shapeHash
  strideHash : a.strideHash = b.strideHash
  ppRank : a.ppRank = b.ppRank
  tpRank : a.tpRank = b.tpRank
  epRank : a.epRank = b.epRank
  etpRank : a.etpRank = b.etpRank
  expertId : a.expertId = b.expertId
  shardOffset : a.shardOffset = b.shardOffset
  shardNbytes : a.shardNbytes = b.shardNbytes

/-- Two keys have the same string if and only if they agree in all that identifies a tensor. -/
theorem canonicalKeyString_eq_iff (a b : CanonicalTensorKey) :
    canonicalKeyString a = canonicalKeyString b ↔ a.SameIdentity b := by
  simp only [canonicalKeyString, List.append_assoc, appendU64_prefixCode.append_eq_iff,
    appendI64_prefixCode.append_eq_iff, appendU64_prefixCode.injective.eq_iff,
    CanonicalTensorKey.sameIdentity_iff]

/-! ## The content hash -/

/-- The offset basis of the first stream. -/
def fnvOffset : ℕ := 1469598103934665603

/-- The prime of both streams, and the seed of the second. -/
def fnvPrime : ℕ := 1099511628211

/-- One byte enters both streams; the second is also rotated. -/
def hashByte (h : ℕ × ℕ) (b : ℕ) : ℕ × ℕ :=
  let h₁ := (h.1 ^^^ b) * fnvPrime % 2 ^ 64
  let h₂ := (h.2 ^^^ b) * fnvPrime % 2 ^ 64
  (h₁, (h₂ <<< 1 ||| h₂ >>> 63) % 2 ^ 64)

/-- `hash_bytes`: both halves of the hash. -/
def hashBytes (bs : List UInt8) : ℕ × ℕ :=
  bs.foldl (fun h b => hashByte h b.toNat) (fnvOffset, fnvPrime)

/-- A number enters the hash of a manifest. -/
def mixManifest (h : ℕ × ℕ) (v : ℕ) : ℕ × ℕ :=
  ((h.1 ^^^ v) * fnvPrime % 2 ^ 64,
    (h.2 ^^^ (v + 0x9e3779b97f4a7c15) % 2 ^ 64) * fnvPrime % 2 ^ 64)

end StateSpectre
