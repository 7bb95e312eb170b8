import Mathlib.Data.UInt
import StateSpectre.Lib.ByteReader

/-!
# The primitives of the wire format

Messages are written field by field: numbers in their width, the lowest byte first, and strings
and vectors behind their length, which is a 32-bit number. A `Writer` puts fields one after the
other, and a `Reader` takes them off again; for each kind of field there is a lemma that what is
written is read (`reads_u32` and so on), which is also in the simp set, for the messages.
-/

namespace StateSpectre.Wire

/-- Malformed or truncated data. -/
structure WireError where
  message : String
  deriving DecidableEq, Repr

/-- A string, as its bytes. -/
def Str : Type := {s : List UInt8 // s.length < 2 ^ 32}

def Vec (α : Type) : Type := {l : List α // l.length < 2 ^ 32}

def Vec.map {α β : Type} (f : α → β) (l : Vec α) : Vec β :=
  ⟨l.1.map f, (List.length_map ..).trans_lt l.2⟩

/-! ## Writing -/

/-- A field that is put into a message. -/
inductive Field
  | u8 (v : UInt8)
  | b (v : Bool)
  | u16 (v : UInt16)
  | u32 (v : UInt32)
  | u64 (v : UInt64)
  | str (s : Str)

def Field.bytes : Field → List UInt8
  | .u8 v => [v]
  | .b v => [if v then 1 else 0]
  | .u16 v => leBytes 2 v.toNat
  | .u32 v => leBytes 4 v.toNat
  | .u64 v => leBytes 8 v.toNat
  | .str s => leBytes 4 s.1.length ++ s.1

namespace Writer

/-- Fields are put one after the other. -/
def write (fs : List Field) : List UInt8 := fs.flatMap Field.bytes

/-- The fields of a vector: its length, and those of its items. -/
def putVec {α : Type} (item : α → List Field) (l : Vec α) : List Field :=
  .u32 (UInt32.ofNat l.1.length) :: l.1.flatMap item

@[simp] theorem write_nil : write [] = [] := rfl

@[simp] theorem write_cons (f : Field) (fs : List Field) : write (f :: fs) = f.bytes ++ write fs :=
  rfl

@[simp] theorem write_append (fs gs : List Field) : write (fs ++ gs) = write fs ++ write gs :=
  List.flatMap_append

theorem write_flatMap (l : List α) (item : α → List Field) :
    write (l.flatMap item) = l.flatMap fun a => write (item a) :=
  List.flatMap_assoc ..

end Writer

/-! ## Reading -/

/-- Readers of the wire format. -/
abbrev Reader : Type → Type := ByteReader WireError

namespace Reader

/-- The next `n` bytes. -/
def need (n : ℕ) : Reader {l : List UInt8 // l.length = n} :=
  ByteReader.take ⟨"truncated wire message"⟩ n

/-- A number of `k` bytes. -/
def uint {α : Type} (k : ℕ) (ofNat : ℕ → α) : Reader α := do
  let l ← need k
  pure (ofNat (leNat l.1))

def u8 : Reader UInt8 := uint 1 UInt8.ofNat

def b : Reader Bool := do
  let v ← u8
  pure (v != 0)

def u16 : Reader UInt16 := uint 2 UInt16.ofNat

def u32 : Reader UInt32 := uint 4 UInt32.ofNat

def u64 : Reader UInt64 := uint 8 UInt64.ofNat

def str : Reader Str := do
  let n ← u32
  let l ← need n.toNat
  pure ⟨l.1, l.2.trans_lt n.toNat_lt⟩

/-- A vector, with how its items are read. -/
def getVec {α : Type} (item : Reader α) : Reader (Vec α) := do
  let n ← u32
  let l ← item.times n.toNat
  pure ⟨l.1, l.2.trans_lt n.toNat_lt⟩

end Reader

/-! ## What is written is read -/

theorem reads_uint {k n : ℕ} {f : ℕ → α} (h : n < 256 ^ k) :
    (Reader.uint k f).Reads (leBytes k n) (f n) := by
  have hread := (ByteReader.reads_take (e := WireError.mk "truncated wire message")
    (length_leBytes k n)).map (g := fun l => f (leNat l.1))
  rwa [leNat_leBytes h] at hread

theorem reads_u8 (v : UInt8) : Reader.u8.Reads (Field.bytes (.u8 v)) v := by
  have h := reads_uint (k := 1) (f := UInt8.ofNat) v.toNat_lt
  rwa [UInt8.ofNat_toNat, leBytes, leBytes, UInt8.ofNat_toNat] at h

theorem reads_b (v : Bool) : Reader.b.Reads (Field.bytes (.b v)) v := by
  have h := (reads_u8 (if v then 1 else 0)).map (g := fun v => v != 0)
  cases v <;> exact h

theorem reads_u16 (v : UInt16) : Reader.u16.Reads (Field.bytes (.u16 v)) v := by
  have h := reads_uint (k := 2) (f := UInt16.ofNat) v.toNat_lt
  rwa [UInt16.ofNat_toNat] at h

theorem reads_u32 (v : UInt32) : Reader.u32.Reads (Field.bytes (.u32 v)) v := by
  have h := reads_uint (k := 4) (f := UInt32.ofNat) v.toNat_lt
  rwa [UInt32.ofNat_toNat] at h

theorem reads_u64 (v : UInt64) : Reader.u64.Reads (Field.bytes (.u64 v)) v := by
  have h := reads_uint (k := 8) (f := UInt64.ofNat) v.toNat_lt
  rwa [UInt64.ofNat_toNat] at h

theorem reads_str (s : Str) : Reader.str.Reads (Field.bytes (.str s)) s := by
  have hlength := UInt32.toNat_ofNat_of_lt' s.2
  refine (reads_uint (f := UInt32.ofNat) s.2).bind ?_
  exact (ByteReader.reads_take hlength.symm).map

theorem reads_vec {fields : α → List Field} {item : Reader α}
    (h : ∀ a, item.Reads (Writer.write (fields a)) a) (l : Vec α) :
    (Reader.getVec item).Reads (Writer.write (Writer.putVec fields l)) l := by
  rw [Writer.putVec, Writer.write_cons, Writer.write_flatMap]
  refine (reads_u32 _).bind ?_
  exact (ByteReader.reads_times h (UInt32.toNat_ofNat_of_lt' l.2).symm).map

/-! ## Codecs -/

/-- Values with the fields that they are written as and how they are read, so that what is written
    is read. -/
class Codec (α : Type) where
  fields : α → List Field
  decode : Reader α
  reads : ∀ a, decode.Reads (Writer.write (fields a)) a

@[simp] def encode [Codec α] (a : α) : List UInt8 := Writer.write (Codec.fields a)

/-! ## Running a reader field by field -/

section Run

variable {β : Type} {t : List UInt8}

@[simp] theorem bind_b {v : Bool} {f : Bool → Reader β} :
    (Reader.b >>= f).run (Field.bytes (.b v) ++ t) = (f v).run t := (reads_b v).run_bind

@[simp] theorem bind_u16 {v : UInt16} {f : UInt16 → Reader β} :
    (Reader.u16 >>= f).run (Field.bytes (.u16 v) ++ t) = (f v).run t := (reads_u16 v).run_bind

@[simp] theorem bind_u32 {v : UInt32} {f : UInt32 → Reader β} :
    (Reader.u32 >>= f).run (Field.bytes (.u32 v) ++ t) = (f v).run t := (reads_u32 v).run_bind

@[simp] theorem bind_u64 {v : UInt64} {f : UInt64 → Reader β} :
    (Reader.u64 >>= f).run (Field.bytes (.u64 v) ++ t) = (f v).run t := (reads_u64 v).run_bind

@[simp] theorem bind_str {s : Str} {f : Str → Reader β} :
    (Reader.str >>= f).run (Field.bytes (.str s) ++ t) = (f s).run t := (reads_str s).run_bind

@[simp] theorem bind_decode [Codec α] {a : α} {f : α → Reader β} :
    (Codec.decode >>= f).run (Writer.write (Codec.fields a) ++ t) = (f a).run t :=
  (Codec.reads a).run_bind

@[simp] theorem bind_getVec [Codec α] {l : Vec α} {f : Vec α → Reader β} :
    (Reader.getVec Codec.decode >>= f).run (Writer.write (Writer.putVec Codec.fields l) ++ t) =
      (f l).run t := (reads_vec Codec.reads l).run_bind

end Run

/-! ## Items of vectors -/

instance : Codec Str where
  fields s := [.str s]
  decode := Reader.str
  reads s := by simpa using reads_str s

instance instCodecUInt64 : Codec UInt64 where
  fields v := [.u64 v]
  decode := Reader.u64
  reads v := by simpa using reads_u64 v

end StateSpectre.Wire
