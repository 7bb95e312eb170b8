import Mathlib.Algebra.Group.Int.Defs
import StateSpectre.Lib.Fallible
import StateSpectre.Startup
import StateSpectre.Yaml.Parser

/-!
# Loading the configuration

What the daemon makes of the tree of its configuration file, as far as the slot plan reads it:
the section `arenas` (`loadArenas`), with the defaults for what is missing, and the checks at the
end (`DaemonConfig.validate`). The other sections do not change the arenas. They are left out,
also where they make the daemon refuse the file: every file that the daemon accepts is accepted
here, with the same arenas.

Sizes are given in GiB and MiB, as an integer from 0 to `2 ^ 63 - 1` (`toU64`), and are multiplied
in 64 bits: nothing checks that a product is that of the integers.

Without a file the daemon builds a configuration of one arena (`defaultSmokeConfig`).
-/

namespace StateSpectre

variable {ac : NumaArenaConfig} {cfg : DaemonConfig}

open Yaml

def kMiB : ℕ := 1 <<< 20

def kGiB : ℕ := 1 <<< 30

/-! ## The tree -/

namespace Yaml.YamlNode

/-- The line where the node began. -/
def line : YamlNode → ℕ
  | empty line | scalar _ line | map _ line | seq _ line => line

/-- The entries of a map, and none of another node. -/
def entries : YamlNode → List (Text × YamlNode)
  | map entries _ => entries
  | _ => []

def find (n : YamlNode) (key : String) : Option YamlNode := n.entries.lookup key.toList

/-- The error that something else was expected. -/
def configError (n : YamlNode) (message : String) : ParseError :=
  .thrown (s!"config error at line {n.line}: " ++ message)

end Yaml.YamlNode

/-! ## Scalars -/

def isSpace (c : Char) : Bool := c == ' ' || (9 ≤ c.toNat && c.toNat ≤ 13)

/-- The number with these digits. -/
def digitsValue (digits : Text) : ℕ :=
  digits.foldl (fun n c => 10 * n + (c.toNat - '0'.toNat)) 0

/-- `std::stoll`: white space, a sign, and all digits that follow. The value, if it is one of 64
    bits, and how many characters are read. -/
def stoll (s : Text) : Option (ℤ × ℕ) :=
  let body := s.dropWhile isSpace
  let negative := body.head? = some '-'
  let unsigned := if negative ∨ body.head? = some '+' then body.tail else body
  let digits := unsigned.takeWhile Char.isDigit
  let v : ℤ := if negative then -digitsValue digits else digitsValue digits
  if digits = [] ∨ v < -2 ^ 63 ∨ 2 ^ 63 ≤ v then none
  else some (v, s.length - (unsigned.length - digits.length))

/-- `to_u64`: a scalar that is an integer, and not negative. -/
def toU64 (n : YamlNode) (ctx : Text) : Except ParseError ℕ :=
  match n with
  | .scalar s _ =>
    match stoll s with
    | some (v, pos) =>
      if pos = s.length ∧ 0 ≤ v then .ok v.toNat
      else .error (n.configError s!"invalid integer '{String.ofList s}' for {String.ofList ctx}")
    | none =>
      .error (n.configError s!"invalid integer '{String.ofList s}' for {String.ofList ctx}")
  | _ => .error (n.configError s!"expected integer for {String.ofList ctx}")

/-- `to_str`: any scalar. -/
def toStr (n : YamlNode) (ctx : Text) : Except ParseError Text :=
  match n with
  | .scalar s _ => .ok s
  | _ => .error (n.configError s!"expected string for {String.ofList ctx}")

/-- A size in multiples of `unit`, in bytes. The product is one of 64 bits. -/
def toSize (n : YamlNode) (ctx : Text) (unit : ℕ) : Except ParseError ℕ := do
  let size ← toU64 n ctx
  return size * unit % 2 ^ 64

/-! ## The section of the arenas -/

/-- An entry of `gpu_windows`. Unknown keys are ignored. -/
def loadWindow (w : YamlNode) : Except ParseError GpuWindowConfig :=
  match w with
  | .map entries _ =>
    entries.foldlM (fun win (k, v) => do
      if k = "gpu".toList then
        let gpu ← toU64 v k
        return { win with gpu := gpu % 2 ^ 32 }
      else if k = "size_gb".toList then
        let bytes ← toSize v k kGiB
        return { win with sizeBytes := bytes }
      else return win) { gpu := 0, sizeBytes := 0 }
  | _ => .error (w.configError "gpu_windows entry must be a mapping")

/-- The list `gpu_windows` of an arena, if it is there. -/
def loadWindows (item : YamlNode) : Except ParseError (List GpuWindowConfig) :=
  match item.find "gpu_windows" with
  | none => .ok []
  | some (.seq windows _) => windows.mapM loadWindow
  | some gw => .error (gw.configError "gpu_windows must be a list")

/-- An entry of `per_numa`. -/
def loadArena (item : YamlNode) : Except ParseError NumaArenaConfig :=
  match item with
  | .map entries _ => do
    let arena ← entries.foldlM (fun arena (k, v) => do
      if k = "numa_node".toList then
        let node ← toU64 v k
        return { arena with numaNode := node % 2 ^ 32 }
      else if k = "size_gb".toList then
        let bytes ← toSize v k kGiB
        return { arena with sizeBytes := bytes }
      else if k = "overflow_gb".toList then
        let bytes ← toSize v k kGiB
        return { arena with overflowBytes := bytes }
      else return arena)
      ({ numaNode := 0, sizeBytes := 0, gpuWindows := [], overflowBytes := 0 } : NumaArenaConfig)
    let gpuWindows ← loadWindows item
    return { arena with gpuWindows }
  | _ => .error (item.configError "per_numa entry must be a mapping")

def loadPerNuma (a : YamlNode) : Except ParseError (List NumaArenaConfig) :=
  match a.find "per_numa" with
  | none => .ok []
  | some (.seq items _) => items.mapM loadArena
  | some pn => .error (pn.configError "arenas.per_numa must be a list")

/-- The granularity. The other two keys are read, but the slot plan does not use them. -/
def loadGranularity (a : YamlNode) : Except ParseError ℕ :=
  a.entries.foldlM (fun gran (k, v) => do
    if k = "registration_policy".toList then
      let _ ← toStr v k
      return gran
    else if k = "registration_chunk_mb".toList then
      let _ ← toSize v k kMiB
      return gran
    else if k = "allocation_granularity_mb".toList then toSize v k kMiB
    else return gran) (16 <<< 20)

deriving instance DecidableEq for DaemonConfig

/-- The configuration with this granularity, a number of 64 bits. -/
def DaemonConfig.ofArenas (gran : ℕ) (perNuma : List NumaArenaConfig) : DaemonConfig where
  allocationGranularityBytes := gran % 2 ^ 64
  perNuma := perNuma
  granularity_lt := Nat.mod_lt _ (by decide)

/-- The section `arenas` of the configuration, with the defaults if it is missing. -/
def loadArenas (root : YamlNode) : Except ParseError DaemonConfig :=
  match root.find "arenas" with
  | none => .ok (.ofArenas (16 <<< 20) [])
  | some a => do
    let gran ← loadGranularity a
    let perNuma ← loadPerNuma a
    return .ofArenas gran perNuma

/-! ## The configuration -/

/-- `default_smoke_config`: one arena, with a window for one GPU and an overflow of at least
    16 MiB, or half of the arena if that is too much. -/
def defaultSmokeConfig (arenaBytes numaNode gpuId : ℕ) : DaemonConfig :=
  let overflow := max (arenaBytes / 8) (16 * kMiB)
  let overflow := if arenaBytes ≤ overflow then arenaBytes / 2 else overflow
  .ofArenas (2 * kMiB)
    [{ numaNode, sizeBytes := arenaBytes
       gpuWindows := [{ gpu := gpuId, sizeBytes := arenaBytes - overflow }]
       overflowBytes := overflow }]

/-- `load_config`, of the file at `path` with this content, if it can be opened. -/
def loadConfig (fuel : ℕ) (path : Text) (content : Option Text) :
    Except ParseError DaemonConfig :=
  if path = [] then .ok (defaultSmokeConfig (256 * kMiB) 0 0)
  else
    match content with
    | none => .error (.thrown s!"config: cannot open file '{String.ofList path}'")
    | some content => do
      let lines ← tokenize content
      match lines with
      | [] => .error (.thrown s!"config: file '{String.ofList path}' is empty")
      | first :: lines =>
        match ← parseNode fuel first.indent (first :: lines) with
        | (_, l :: _) =>
          .error (.thrown (s!"config parse error at line {l.lineno}: " ++
            "unexpected content / bad indentation"))
        | (.map entries line, []) =>
          let cfg ← loadArenas (.map entries line)
          match cfg.validate with
          | .error message => .error (.thrown message)
          | .ok () => .ok cfg
        | _ => .error (.thrown "config: top-level must be a mapping")

/-! ## What is loaded -/

theorem toSize_lt {n : YamlNode} {ctx : Text} {unit bytes : ℕ} (h : toSize n ctx unit = .ok bytes) :
    bytes < 2 ^ 64 := by
  obtain ⟨size, -, h⟩ := bind_eq_ok.1 h
  exact Except.ok.inj h ▸ Nat.mod_lt _ (by decide)

theorem loadArena_size {item : YamlNode} (h : loadArena item = .ok ac) : ac.sizeBytes < 2 ^ 64 := by
  cases item with
  | map entries line =>
    obtain ⟨arena, hfields, h⟩ := bind_eq_ok.1 h
    obtain ⟨gpuWindows, -, h⟩ := bind_eq_ok.1 h
    obtain rfl := Except.ok.inj h
    refine foldlM_keeps (·.sizeBytes < 2 ^ 64) ?_ (Nat.two_pow_pos 64) hfields
    rintro arena ⟨k, v⟩ arena' harena hfield
    dsimp only at hfield
    split at hfield
    · obtain ⟨node, -, hfield⟩ := bind_eq_ok.1 hfield
      exact Except.ok.inj hfield ▸ harena
    split at hfield
    · obtain ⟨bytes, hbytes, hfield⟩ := bind_eq_ok.1 hfield
      exact Except.ok.inj hfield ▸ toSize_lt hbytes
    split at hfield
    · obtain ⟨bytes, -, hfield⟩ := bind_eq_ok.1 hfield
      exact Except.ok.inj hfield ▸ harena
    · exact Except.ok.inj hfield ▸ harena
  | _ => cases h

theorem loadArenas_sizes {root : YamlNode} (h : loadArenas root = .ok cfg) :
    ∀ ac ∈ cfg.perNuma, ac.sizeBytes < 2 ^ 64 := by
  intro ac hac
  rw [loadArenas] at h
  split at h
  · obtain rfl := Except.ok.inj h
    exact nomatch hac
  next a _ =>
    obtain ⟨gran, -, h⟩ := bind_eq_ok.1 h
    obtain ⟨perNuma, hperNuma, h⟩ := bind_eq_ok.1 h
    obtain rfl := Except.ok.inj h
    rw [loadPerNuma] at hperNuma
    split at hperNuma
    · obtain rfl := Except.ok.inj hperNuma
      exact nomatch hac
    · obtain ⟨item, -, hitem⟩ := mem_mapM hperNuma hac
      exact loadArena_size hitem
    · cases hperNuma

theorem NumaArenaConfig.needed_le (h : ac.validate = .ok ()) : ac.needed ≤ ac.sizeBytes := by
  rw [NumaArenaConfig.validate] at h
  split at h
  · cases h
  split at h
  · cases h
  next hle => exact not_lt.1 hle

theorem DaemonConfig.needed_le (cfg : DaemonConfig) (h : cfg.validate = .ok ()) :
    ∀ ac ∈ cfg.perNuma, ac.needed ≤ ac.sizeBytes := by
  rw [DaemonConfig.validate] at h
  split at h
  · cases h
  split at h
  · cases h
  exact fun ac hac => NumaArenaConfig.needed_le (forM_eq_ok h ac hac)

/-- What is checked of a configuration, and holds of those that are built in. -/
structure DaemonConfig.Checked (cfg : DaemonConfig) : Prop where
  granularity_pos : 0 < cfg.allocationGranularityBytes
  size_lt : ∀ ac ∈ cfg.perNuma, ac.sizeBytes < 2 ^ 64
  needed_le : ∀ ac ∈ cfg.perNuma, ac.needed ≤ ac.sizeBytes

theorem defaultSmokeConfig_checked {arenaBytes : ℕ} (h : arenaBytes < 2 ^ 64)
    (numaNode gpuId : ℕ) : (defaultSmokeConfig arenaBytes numaNode gpuId).Checked where
  granularity_pos := show 0 < 2 * kMiB % 2 ^ 64 by decide
  size_lt := List.forall_mem_singleton.2 h
  needed_le := by
    refine List.forall_mem_singleton.2 ((Nat.mod_le _ _).trans ?_)
    simp only [List.foldl_cons, List.foldl_nil, Nat.zero_add]
    split <;> omega

theorem loadConfig_checked {fuel : ℕ} {path : Text} {content : Option Text}
    (h : loadConfig fuel path content = .ok cfg) : cfg.Checked := by
  unfold loadConfig at h
  split at h
  · obtain rfl := Except.ok.inj h
    exact defaultSmokeConfig_checked (by decide) 0 0
  split at h
  · cases h
  obtain ⟨lines, -, h⟩ := bind_eq_ok.1 h
  split at h
  · cases h
  obtain ⟨parsed, -, h⟩ := bind_eq_ok.1 h
  split at h
  · cases h
  · obtain ⟨cfg', hcfg, h⟩ := bind_eq_ok.1 h
    split at h
    · cases h
    next hvalid =>
      obtain rfl := Except.ok.inj h
      exact ⟨(DaemonConfig.startedFrom hvalid).granularity_pos, loadArenas_sizes hcfg,
        cfg'.needed_le hvalid⟩
  · cases h

end StateSpectre
