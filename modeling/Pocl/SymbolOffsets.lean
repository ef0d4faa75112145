import Mathlib.Data.List.Infix
import Mathlib.Tactic

/-!
# The offset of a symbol in a BRIG module

`find_symbol_offset` goes through the entries of the code section, and compares the symbol with
the bytes of the data entry of each kernel directive.

The sections are the bytes that their headers count, of which numbers are read in little endian
order.  A read that leaves its section has no defined result.
-/

namespace Pocl.SymbolOffsets

abbrev Bytes := List UInt8

def read16 (bytes : Bytes) (offset : ℕ) : Option ℕ := do
  let low ← bytes[offset]?
  let high ← bytes[offset + 1]?
  return low.toNat + 2 ^ 8 * high.toNat

def read32 (bytes : Bytes) (offset : ℕ) : Option ℕ := do
  let low ← read16 bytes offset
  let high ← read16 bytes (offset + 2)
  return low + 2 ^ 16 * high

/-- A section with the header fields `byte_count` and `header_byte_count`. -/
structure CodeSection where
  bytes : Bytes
  header_byte_count : ℕ
  byte_count_eq : read32 bytes 0 = some bytes.length
  header_byte_count_eq : read32 bytes 4 = some header_byte_count

/-- The characters of a C string. -/
structure Symbol where
  characters : Bytes
  no_nul : 0 ∉ characters

def BRIG_KIND_DIRECTIVE_KERNEL : ℕ := 0x1008

inductive Outcome
  | success (offset num_args : ℕ)
  | error
  | outside
  deriving DecidableEq

section Scan

/-- Whether `strncmp` with the length of the symbol finds no difference. -/
def strncmp : Bytes → Bytes → Option Bool
  | [], _ => some true
  | _ :: _, [] => none
  | character :: characters, byte :: bytes =>
      if character = byte then strncmp characters bytes else some false

inductive Step
  | success (offset num_args : ℕ)
  | next (offset : ℕ)

def advance (code : Bytes) (offset : ℕ) : Option Step :=
  (read16 code offset).map fun byteCount => .next ((offset + byteCount) % 2 ^ 32)

/-- The bytes from the data of the entry that the directive calls its name. -/
def nameBytes (code data : Bytes) (offset : ℕ) : Option Bytes :=
  (read32 code (offset + 4)).map fun name => data.drop (name + 4)

/-- The body of the loop. -/
def visit (symbol : Symbol) (code data : Bytes) (offset : ℕ) : Option Step :=
  (read16 code (offset + 2)).bind fun kind =>
    if kind = BRIG_KIND_DIRECTIVE_KERNEL then
      (nameBytes code data offset).bind fun bytes =>
        (strncmp symbol.characters bytes).bind fun same =>
          if same then (read16 code (offset + 10)).map (.success offset)
          else advance code offset
    else advance code offset

/-- The loop, as far as the fuel lasts. -/
def scan (symbol : Symbol) (code data : Bytes) : ℕ → ℕ → Option Outcome
  | 0, _ => none
  | fuel + 1, offset =>
      if offset = code.length then some .error
      else
        match visit symbol code data offset with
        | none => some .outside
        | some (.success offset num_args) => some (.success offset num_args)
        | some (.next offset) => scan symbol code data fuel offset

def find_symbol_offset (symbol : Symbol) (code : CodeSection) (data : Bytes) (fuel : ℕ) :
    Option Outcome :=
  scan symbol code.bytes data fuel code.header_byte_count

end Scan

/-! ## The purpose -/

/-- From an offset to the end, a code section is filled by entries of positive size. -/
inductive Filled (code : Bytes) : ℕ → List ℕ → Prop
  | finish : Filled code code.length []
  | entry {offset byteCount : ℕ} {offsets : List ℕ}
      (hbyteCount : read16 code offset = some byteCount) (hpositive : 0 < byteCount)
      (hrest : Filled code (offset + byteCount) offsets) : Filled code offset (offset :: offsets)

/-- The name of a directive: as many bytes as its data entry counts. -/
def name (code data : Bytes) (offset : ℕ) : Option Bytes := do
  let name ← read32 code (offset + 4)
  let byteCount ← read32 data name
  let bytes := data.drop (name + 4)
  if byteCount ≤ bytes.length then some (bytes.take byteCount) else none

def IsKernel (code : Bytes) (offset : ℕ) : Prop :=
  read16 code (offset + 2) = some BRIG_KIND_DIRECTIVE_KERNEL

instance (code : Bytes) (offset : ℕ) : Decidable (IsKernel code offset) :=
  inferInstanceAs (Decidable (_ = _))

/-- Whether a directive is the kernel with the name of the symbol. -/
def Named (symbol : Symbol) (code data : Bytes) (offset : ℕ) : Prop :=
  IsKernel code offset ∧ name code data offset = some symbol.characters

instance (symbol : Symbol) (code data : Bytes) (offset : ℕ) :
    Decidable (Named symbol code data offset) :=
  inferInstanceAs (Decidable (_ ∧ _))

/-- The outcome for the first of the entries with a property. -/
def outcomeOf (code : Bytes) : Option ℕ → Option Outcome
  | none => some .error
  | some offset => (read16 code (offset + 10)).map (.success offset)

/-- The scan comes to an end inside of the sections, and in a filled section with the outcome
for the first kernel that has the name of the symbol. -/
def Conforms (symbol : Symbol) (code : CodeSection) (data : Bytes) : Prop :=
  ∃ fuel outcome, find_symbol_offset symbol code data fuel = some outcome ∧
    outcome ≠ .outside ∧
      ∀ offsets, Filled code.bytes code.header_byte_count offsets →
        outcomeOf code.bytes (offsets.find? fun offset => Named symbol code.bytes data offset) =
          some outcome

/-! ## What the scan needs -/

/-- Whether the data of a kernel begins with the symbol. -/
def Begins (symbol : Symbol) (code data : Bytes) (offset : ℕ) : Prop :=
  IsKernel code offset ∧
    ∃ bytes ∈ nameBytes code data offset, symbol.characters <+: bytes

/-- Whether an entry is no kernel, or its data differs from the symbol before the end. -/
def Differs (symbol : Symbol) (code data : Bytes) (offset : ℕ) : Prop :=
  (∃ kind ∈ read16 code (offset + 2), kind ≠ BRIG_KIND_DIRECTIVE_KERNEL) ∨
    IsKernel code offset ∧
      ∃ bytes ∈ nameBytes code data offset,
        ¬ symbol.characters <+: bytes ∧ ¬ bytes <+: symbol.characters

/-- From an offset the sizes lead to the end of the section or to a kernel whose data begins
with the symbol, and what is read on the way is inside of the sections. -/
inductive Scannable (symbol : Symbol) (code data : Bytes) : ℕ → Prop
  | finish : Scannable symbol code data code.length
  | found {offset num_args : ℕ} (hbegins : Begins symbol code data offset)
      (hnum_args : read16 code (offset + 10) = some num_args) : Scannable symbol code data offset
  | other {offset byteCount : ℕ} (hdiffers : Differs symbol code data offset)
      (hbyteCount : read16 code offset = some byteCount)
      (hrest : Scannable symbol code data ((offset + byteCount) % 2 ^ 32)) :
      Scannable symbol code data offset

instance (symbol : Symbol) (code data : Bytes) (offset : ℕ) :
    Decidable (Begins symbol code data offset) :=
  inferInstanceAs (Decidable (_ ∧ _))

/-- In a filled section, the first kernel whose data begins with the symbol has its name. -/
def WellNamed (symbol : Symbol) (code : CodeSection) (data : Bytes) : Prop :=
  ∀ offsets, Filled code.bytes code.header_byte_count offsets →
    ∀ offset ∈ offsets.find? fun offset => Begins symbol code.bytes data offset,
      Named symbol code.bytes data offset

section Comparison

variable {symbol : Symbol} {code data : Bytes} {offset : ℕ}

theorem strncmp_eq_true_iff (characters bytes : Bytes) :
    strncmp characters bytes = some true ↔ characters <+: bytes := by
  induction characters generalizing bytes with
  | nil => simp [strncmp]
  | cons character characters ih =>
      cases bytes with
      | nil => simp [strncmp]
      | cons byte bytes =>
          by_cases heq : character = byte
          · rw [strncmp, if_pos heq, ih, heq, List.prefix_cons_inj]
          · simp [strncmp, heq, List.cons_prefix_cons]

theorem strncmp_eq_false_iff (characters bytes : Bytes) :
    strncmp characters bytes = some false ↔
      ¬ characters <+: bytes ∧ ¬ bytes <+: characters := by
  induction characters generalizing bytes with
  | nil => simp [strncmp]
  | cons character characters ih =>
      cases bytes with
      | nil => simp [strncmp]
      | cons byte bytes =>
          by_cases heq : character = byte
          · rw [strncmp, if_pos heq, ih, heq, List.prefix_cons_inj, List.prefix_cons_inj]
          · simp [strncmp, heq, Ne.symm heq, List.cons_prefix_cons]

theorem Named.begins (hnamed : Named symbol code data offset) :
    Begins symbol code data offset := by
  obtain ⟨hkernel, hname⟩ := hnamed
  obtain ⟨start, hstart, hname⟩ := Option.bind_eq_some_iff.mp hname
  obtain ⟨byteCount, -, hname⟩ := Option.bind_eq_some_iff.mp hname
  refine ⟨hkernel, data.drop (start + 4), ?_, ?_⟩
  · rw [nameBytes, hstart]
    rfl
  · dsimp only at hname
    split at hname
    next hle =>
      rw [← Option.some.inj hname]
      exact List.take_prefix _ _
    next => cases hname

theorem Begins.visit_eq (hbegins : Begins symbol code data offset) :
    visit symbol code data offset = (read16 code (offset + 10)).map (.success offset) := by
  obtain ⟨hkernel, bytes, hbytes, hsame⟩ := hbegins
  rw [visit, hkernel, Option.bind_some, if_pos rfl, Option.mem_def.mp hbytes, Option.bind_some,
    (strncmp_eq_true_iff _ _).mpr hsame, Option.bind_some, if_pos rfl]

theorem Differs.visit_eq (hdiffers : Differs symbol code data offset) :
    visit symbol code data offset = advance code offset := by
  obtain ⟨kind, hkind, hne⟩ | ⟨hkernel, bytes, hbytes, hdiffer⟩ := hdiffers
  · rw [visit, Option.mem_def.mp hkind, Option.bind_some, if_neg hne]
  · rw [visit, hkernel, Option.bind_some, if_pos rfl, Option.mem_def.mp hbytes,
      Option.bind_some, (strncmp_eq_false_iff _ _).mpr hdiffer, Option.bind_some,
      if_neg (by decide)]

theorem Differs.not_begins (hdiffers : Differs symbol code data offset) :
    ¬ Begins symbol code data offset := by
  rintro ⟨hkernel, bytes, hbytes, hsame⟩
  obtain ⟨kind, hkind, hne⟩ | ⟨-, others, hothers, hdiffer, -⟩ := hdiffers
  · exact hne (Option.some.inj ((Option.mem_def.mp hkind).symm.trans hkernel))
  · rw [Option.mem_unique hothers hbytes] at hdiffer
    exact hdiffer hsame

/-- Where nothing is read outside, an entry begins with the symbol or differs from it. -/
theorem begins_or_differs (hinside : visit symbol code data offset ≠ none) :
    Begins symbol code data offset ∨ Differs symbol code data offset := by
  rw [visit] at hinside
  obtain ⟨kind, hkind⟩ | hkind := (read16 code (offset + 2)).eq_none_or_eq_some.symm
  · by_cases hkernel : kind = BRIG_KIND_DIRECTIVE_KERNEL
    · subst hkernel
      rw [hkind, Option.bind_some, if_pos rfl] at hinside
      obtain ⟨bytes, hbytes⟩ | hbytes := (nameBytes code data offset).eq_none_or_eq_some.symm
      · rw [hbytes, Option.bind_some] at hinside
        by_cases hsame : symbol.characters <+: bytes
        · exact .inl ⟨hkind, bytes, hbytes, hsame⟩
        · refine .inr (.inr ⟨hkind, bytes, hbytes, hsame, fun hshort => ?_⟩)
          cases hresult : strncmp symbol.characters bytes with
          | none => rw [hresult] at hinside; exact hinside rfl
          | some same =>
              cases same with
              | true => exact hsame ((strncmp_eq_true_iff _ _).mp hresult)
              | false => exact ((strncmp_eq_false_iff _ _).mp hresult).2 hshort
      · rw [hbytes] at hinside
        exact absurd rfl hinside
    · exact .inr (.inl ⟨kind, hkind, hkernel⟩)
  · rw [hkind] at hinside
    exact absurd rfl hinside

end Comparison

section Runs

variable {symbol : Symbol} {code data : Bytes} {offset : ℕ}

theorem Scannable.exists_scan (hscannable : Scannable symbol code data offset) :
    ∃ fuel outcome, scan symbol code data fuel offset = some outcome ∧ outcome ≠ .outside := by
  induction hscannable with
  | finish => exact ⟨1, .error, if_pos rfl, by decide⟩
  | @found offset num_args hbegins hnum_args =>
      by_cases hend : offset = code.length
      · exact ⟨1, .error, if_pos hend, by decide⟩
      · refine ⟨1, .success offset num_args, ?_, by simp⟩
        rw [scan, if_neg hend, hbegins.visit_eq, hnum_args]
        rfl
  | @other offset byteCount hdiffers hbyteCount _ ih =>
      by_cases hend : offset = code.length
      · exact ⟨1, .error, if_pos hend, by decide⟩
      · obtain ⟨fuel, outcome, hscan, hinside⟩ := ih
        refine ⟨fuel + 1, outcome, ?_, hinside⟩
        rw [scan, if_neg hend, hdiffers.visit_eq, advance, hbyteCount]
        exact hscan

theorem scannable_of_scan {fuel : ℕ} {outcome : Outcome}
    (hscan : scan symbol code data fuel offset = some outcome) (hinside : outcome ≠ .outside) :
    Scannable symbol code data offset := by
  induction fuel generalizing offset with
  | zero => cases hscan
  | succ fuel ih =>
      rw [scan] at hscan
      split at hscan
      next hend => rw [hend]; exact .finish
      next =>
        have hvisit : visit symbol code data offset ≠ none := by
          intro hnone
          rw [hnone] at hscan
          exact hinside (Option.some.inj hscan).symm
        obtain hbegins | hdiffers := begins_or_differs hvisit
        · rw [hbegins.visit_eq] at hvisit
          have hread : read16 code (offset + 10) ≠ none := fun hnone =>
            hvisit (by rw [hnone]; rfl)
          obtain ⟨num_args, hnum_args⟩ := Option.ne_none_iff_exists'.mp hread
          exact .found hbegins hnum_args
        · rw [hdiffers.visit_eq, advance] at hvisit hscan
          have hread : read16 code offset ≠ none := fun hnone => hvisit (by rw [hnone]; rfl)
          obtain ⟨byteCount, hbyteCount⟩ := Option.ne_none_iff_exists'.mp hread
          rw [hbyteCount] at hscan
          exact .other hdiffers hbyteCount (ih hscan)

/-! ## Filled sections -/

theorem read16_lt {bytes : Bytes} {value : ℕ} (hread : read16 bytes offset = some value) :
    value < 2 ^ 16 := by
  obtain ⟨low, -, hread⟩ := Option.bind_eq_some_iff.mp hread
  obtain ⟨high, -, hread⟩ := Option.bind_eq_some_iff.mp hread
  obtain rfl := Option.some.inj hread
  have hlow := low.toNat_lt
  have hhigh := high.toNat_lt
  omega

theorem read32_lt {bytes : Bytes} {value : ℕ} (hread : read32 bytes offset = some value) :
    value < 2 ^ 32 := by
  obtain ⟨low, hlow, hread⟩ := Option.bind_eq_some_iff.mp hread
  obtain ⟨high, hhigh, hread⟩ := Option.bind_eq_some_iff.mp hread
  obtain rfl := Option.some.inj hread
  have hlow := read16_lt hlow
  have hhigh := read16_lt hhigh
  omega

theorem Filled.le_length {offsets : List ℕ} (hfilled : Filled code offset offsets) :
    offset ≤ code.length := by
  induction hfilled with
  | finish => exact le_rfl
  | entry _ _ _ ih => exact (Nat.le_add_right _ _).trans ih

/-- In a filled section, the scan finds the first kernel whose data begins with the symbol. -/
theorem scan_filled {offsets : List ℕ} (hlength : code.length < 2 ^ 32)
    (hfilled : Filled code offset offsets) {fuel : ℕ} {outcome : Outcome}
    (hscan : scan symbol code data fuel offset = some outcome) (hinside : outcome ≠ .outside) :
    outcomeOf code (offsets.find? fun offset => Begins symbol code data offset) =
      some outcome := by
  induction hfilled generalizing fuel with
  | finish =>
      cases fuel with
      | zero => cases hscan
      | succ fuel => rwa [scan, if_pos rfl] at hscan
  | @entry offset byteCount offsets hbyteCount hpositive hrest ih =>
      have hle := hrest.le_length
      cases fuel with
      | zero => cases hscan
      | succ fuel =>
          rw [scan, if_neg (by omega)] at hscan
          have hvisit : visit symbol code data offset ≠ none := by
            intro hnone
            rw [hnone] at hscan
            exact hinside (Option.some.inj hscan).symm
          obtain hbegins | hdiffers := begins_or_differs hvisit
          · rw [List.find?_cons_of_pos (by simpa using hbegins), outcomeOf]
            rw [hbegins.visit_eq] at hscan
            cases hnum_args : read16 code (offset + 10) with
            | none =>
                rw [hnum_args] at hscan
                exact absurd (Option.some.inj hscan).symm hinside
            | some num_args => rwa [hnum_args] at hscan
          · rw [List.find?_cons_of_neg (by simpa using hdiffers.not_begins)]
            rw [hdiffers.visit_eq, advance, hbyteCount] at hscan
            simp only [Option.map_some, Nat.mod_eq_of_lt (hle.trans_lt hlength)] at hscan
            exact ih hscan

end Runs

section Names

variable {symbol : Symbol} {code data : Bytes} {offsets : List ℕ}

theorem find?_eq_of_first {α : Type} {p q : α → Bool} {list : List α}
    (hweaker : ∀ entry, p entry = true → q entry = true)
    (hfirst : ∀ entry ∈ list.find? q, p entry = true) : list.find? p = list.find? q := by
  induction list with
  | nil => rfl
  | cons entry list ih =>
      by_cases hq : q entry = true
      · rw [List.find?_cons_of_pos hq] at hfirst ⊢
        exact List.find?_cons_of_pos (hfirst entry rfl)
      · rw [List.find?_cons_of_neg hq] at hfirst ⊢
        rw [List.find?_cons_of_neg fun hp => hq (hweaker entry hp), ih hfirst]

/-- The outcomes for both properties are equal where the first entry has the stronger one. -/
theorem outcomeOf_named_iff {outcome : Outcome}
    (houtcome : outcomeOf code (offsets.find? fun offset => Begins symbol code data offset) =
      some outcome) :
    outcomeOf code (offsets.find? fun offset => Named symbol code data offset) = some outcome ↔
      ∀ offset ∈ offsets.find? fun offset => Begins symbol code data offset,
        Named symbol code data offset := by
  constructor
  · intro hnamed offset hoffset
    rw [Option.mem_def.mp hoffset] at houtcome
    cases hfind : offsets.find? fun offset => Named symbol code data offset with
    | none =>
        obtain ⟨num_args, -, hsuccess⟩ := Option.map_eq_some_iff.mp houtcome
        rw [hfind, outcomeOf, ← hsuccess] at hnamed
        cases hnamed
    | some first =>
        rw [hfind] at hnamed
        obtain ⟨num_args, -, hsuccess⟩ := Option.map_eq_some_iff.mp houtcome
        obtain ⟨_, -, hfirst⟩ := Option.map_eq_some_iff.mp hnamed
        rw [← hfirst] at hsuccess
        cases hsuccess
        simpa using List.find?_some hfind
  · intro hfirst
    have hweaker : ∀ offset, decide (Named symbol code data offset) = true →
        decide (Begins symbol code data offset) = true := by
      intro offset hnamed
      exact decide_eq_true (of_decide_eq_true hnamed).begins
    rw [find?_eq_of_first hweaker fun offset hoffset => decide_eq_true (hfirst offset hoffset),
      houtcome]

end Names

/-- The scan conforms exactly where it stays inside, and where the names do not extend the
symbol. -/
theorem find_symbol_offset_conforms_iff (symbol : Symbol) (code : CodeSection) (data : Bytes) :
    Conforms symbol code data ↔
      Scannable symbol code.bytes data code.header_byte_count ∧ WellNamed symbol code data := by
  have hlength := read32_lt code.byte_count_eq
  constructor
  · rintro ⟨fuel, outcome, hscan, hinside, hnamed⟩
    refine ⟨scannable_of_scan hscan hinside, fun offsets hfilled => ?_⟩
    have houtcome := scan_filled hlength hfilled hscan hinside
    exact (outcomeOf_named_iff houtcome).mp (hnamed offsets hfilled)
  · rintro ⟨hscannable, hnamed⟩
    obtain ⟨fuel, outcome, hscan, hinside⟩ := hscannable.exists_scan
    refine ⟨fuel, outcome, hscan, hinside, fun offsets hfilled => ?_⟩
    have houtcome := scan_filled hlength hfilled hscan hinside
    exact (outcomeOf_named_iff houtcome).mpr (hnamed offsets hfilled)

/-! ## A name that extends the symbol -/

/-- A kernel directive with its name, the number of its arguments, and no code. -/
def directive (name inArgCount : UInt8) : Bytes :=
  [32, 0, 8, 16, name, 0, 0, 0, 0, 0, inArgCount, 0] ++ List.replicate 20 0

/-- The kernels `&ab` with one argument and `&a` with two. -/
def extendedCode : CodeSection where
  bytes := [84, 0, 0, 0, 20, 0, 0, 0, 8, 0, 0, 0] ++ [104, 115, 97, 95, 99, 111, 100, 101] ++
    directive 20 1 ++ directive 28 2
  header_byte_count := 20
  byte_count_eq := by decide
  header_byte_count_eq := by decide

def extendedData : Bytes :=
  [36, 0, 0, 0, 20, 0, 0, 0, 8, 0, 0, 0] ++ [104, 115, 97, 95, 100, 97, 116, 97] ++
    [3, 0, 0, 0, 38, 97, 98, 0] ++ [2, 0, 0, 0, 38, 97, 0, 0]

def extendedSymbol : Symbol where
  characters := [38, 97]
  no_nul := by decide

theorem extended_filled : Filled extendedCode.bytes 20 [20, 52] :=
  .entry (by decide) (Nat.zero_lt_succ 31)
    (.entry (by decide) (Nat.zero_lt_succ 31) .finish)

/-- The scan finds `&ab` at 20, where the kernel `&a` is at 52. -/
theorem extended_not_conforms :
    find_symbol_offset extendedSymbol extendedCode extendedData 3 = some (.success 20 1) ∧
      ¬ Conforms extendedSymbol extendedCode extendedData := by
  refine ⟨by decide, ?_⟩
  rintro ⟨fuel, outcome, hscan, hinside, hnamed⟩
  have hfound := scan_filled (read32_lt extendedCode.byte_count_eq) extended_filled hscan hinside
  have hexpected := hnamed [20, 52] extended_filled
  rw [← hfound] at hexpected
  exact absurd hexpected (by decide)

end Pocl.SymbolOffsets
