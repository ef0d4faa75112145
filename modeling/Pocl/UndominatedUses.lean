import Pocl.BlockRelations
import Pocl.FuelledRuns

/-!
# The repair of undominated uses

A copied block may define a value under another name, so that a use of the value is not
dominated by the definition that it refers to.  `fixUndominatedVariableUses` takes the name of
the operand without the suffix `.pocl_n` and tries the values that are named so, with the
suffixes in order, until one of them dominates the use.

The dominator tree is computed before, and no instruction is moved, so the tests refer to the
function as it was.  What an operand is set to before the last trial is overwritten and is left
out.
-/

namespace Pocl.UndominatedUses

open ExceptPrograms FuelledRun ParallelRegion

abbrev Name := List Char

/-- What a function has under a name; arguments and blocks are no instructions. -/
inductive Symbol
  | instruction (value : ValueId)
  | other
  deriving DecidableEq

def Symbol.instruction? : Symbol → Option ValueId
  | .instruction value => some value
  | .other => none

structure SymbolTable where
  getName : ValueId → Name
  entries : List (Name × Symbol)

def SymbolTable.lookup (table : SymbolTable) (name : Name) : Option Symbol :=
  (table.entries.find? fun entry => entry.1 = name).map Prod.snd

/-- The block of an instruction; other values have none. -/
def parent (func : Func) (value : ValueId) : Option BlockId :=
  func.order.find? fun block => value ∈ blockValues (func.body block)

section Operands

def operands : InstrKind → List ValueId
  | .barrier => []
  | .phi incoming => incoming.map Prod.fst
  | .other _ operands => operands

/-- The blocks that the operands of a PHI node come from. -/
def incomingBlocks : InstrKind → Option (List BlockId)
  | .phi incoming => some (incoming.map Prod.snd)
  | _ => none

def setOperands (kind : InstrKind) (values : List ValueId) : InstrKind :=
  match kind with
  | .barrier => .barrier
  | .phi incoming => .phi (values.zip (incoming.map Prod.snd))
  | .other opcode _ => .other opcode values

end Operands

/-- A PHI node uses its operands at the end of the blocks that they come from. -/
def dominatesUse
    (func : Func) (block : BlockId) (incoming : Option (List BlockId)) (opr : ℕ)
    (operand : ValueId) : FuelledRun Bool := do
  let opBlock ← asserted (parent func operand)
  match incoming with
  | none => .ok (opBlock = block || func.dominates opBlock block)
  | some preds => do
      let predBB ← asserted preds[opr]?
      .ok (func.dominates opBlock predBB)

/-- `rsplit` at the last dot. -/
def baseName (name : Name) : Name :=
  let second := (name.reverse.takeWhile (· ≠ '.')).reverse
  if '.' ∈ name ∧ ['p', 'o', 'c', 'l', '_'] <+: second then
    name.take (name.length - (second.length + 1))
  else
    name

def alternativeName (base : Name) (copy : ℕ) : Name :=
  if 0 < copy then base ++ ['.', 'p', 'o', 'c', 'l', '_'] ++ Nat.toDigits 10 copy else base

section Repair

variable (table : SymbolTable) (func : Func) (block : BlockId)

/-- The loop over the suffixes, which gives up at the first name above 10000 that nothing has. -/
def findAlternative (incoming : Option (List BlockId)) (opr : ℕ) (base : Name) :
    ℕ → ℕ → FuelledRun ValueId
  | 0, _ => .error .outOfFuel
  | fuel + 1, copy =>
      match table.lookup (alternativeName base copy) with
      | some symbol => do
          let alternative ← asserted symbol.instruction?
          if ← dominatesUse func block incoming opr alternative then
            .ok alternative
          else
            findAlternative incoming opr base fuel (copy + 1)
      | none =>
          if 10000 < copy then .error .aborted
          else findAlternative incoming opr base fuel (copy + 1)

def fixOperand (fuel : ℕ) (incoming : Option (List BlockId))
    (state : List ValueId × Bool) (opr : ℕ) : FuelledRun (List ValueId × Bool) := do
  let operand ← asserted state.1[opr]?
  if (parent func operand).isNone then
    .ok state
  else if ← dominatesUse func block incoming opr operand then
    .ok state
  else do
    let alternative ←
      findAlternative table func block incoming opr (baseName (table.getName operand)) fuel 0
    .ok (state.1.set opr alternative, true)

def fixOperands (fuel : ℕ) (incoming : Option (List BlockId)) (values : List ValueId)
    (changed : Bool) : FuelledRun (List ValueId × Bool) :=
  (List.range values.length).foldlM (fixOperand table func block fuel incoming)
    (values, changed)

def fixInstr (fuel : ℕ) (state : List Instr × Bool) (instr : Instr) :
    FuelledRun (List Instr × Bool) := do
  let (values, changed) ←
    fixOperands table func block fuel (incomingBlocks instr.kind) (operands instr.kind) state.2
  .ok (state.1 ++ [{ instr with kind := setOperands instr.kind values }], changed)

def fixBlock (fuel : ℕ) (state : Func × Bool) (block : BlockId) : FuelledRun (Func × Bool) := do
  let content := state.1.body block
  let (instrs, changed) ← content.instrs.foldlM (fixInstr table func block fuel) ([], state.2)
  let (values, changed) ← fixOperands table func block fuel none content.term.operands changed
  .ok (state.1.setBody block ⟨instrs, { content.term with operands := values }⟩, changed)

def fixUndominatedVariableUses (fuel : ℕ) : FuelledRun (Func × Bool) :=
  func.order.foldlM (fixBlock table func fuel) (func, false)

end Repair

section Search

variable (table : SymbolTable) (func : Func) (block : BlockId)
  (incoming : Option (List BlockId)) (opr : ℕ) (base : Name)

/-- What the search passes over. -/
inductive Passed (copy : ℕ) : Prop
  | free (hlookup : table.lookup (alternativeName base copy) = none) (hle : copy ≤ 10000)
  | undominated {value : ValueId}
      (hlookup : table.lookup (alternativeName base copy) = some (.instruction value))
      (huse : dominatesUse func block incoming opr value = .ok false)

/-- What the search ends at, with its result. -/
inductive Ends (copy : ℕ) : FuelledRun ValueId → Prop
  | found {alternative : ValueId}
      (hlookup : table.lookup (alternativeName base copy) = some (.instruction alternative))
      (huse : dominatesUse func block incoming opr alternative = .ok true) :
      Ends copy (.ok alternative)
  | free (hlookup : table.lookup (alternativeName base copy) = none) (hlt : 10000 < copy) :
      Ends copy (.error .aborted)
  | foreign {symbol : Symbol}
      (hlookup : table.lookup (alternativeName base copy) = some symbol)
      (huse : ∀ value, symbol = .instruction value →
        dominatesUse func block incoming opr value = .error .assertion) :
      Ends copy (.error .assertion)

variable {table func block incoming opr base}

theorem dominatesUse_result (operand : ValueId) :
    (∃ found, dominatesUse func block incoming opr operand = .ok found) ∨
      dominatesUse func block incoming opr operand = .error .assertion := by
  unfold dominatesUse
  cases parent func operand with
  | none => exact .inr rfl
  | some opBlock =>
      cases incoming with
      | none => exact .inl ⟨_, rfl⟩
      | some preds =>
          change (∃ found, asserted preds[opr]? >>= _ = _) ∨ asserted preds[opr]? >>= _ = _
          cases preds[opr]? with
          | none => exact .inr rfl
          | some predBB => exact .inl ⟨_, rfl⟩

theorem dominatesUse_halts (operand : ValueId) :
    (dominatesUse func block incoming opr operand).Halts := by
  rcases dominatesUse_result operand with ⟨found, huse⟩ | huse
  · rw [huse]
    exact halts_ok found
  · rw [huse]
    exact halts_assertion

theorem alternativeName_injective (base : Name) {first second : ℕ} (hfirst : 0 < first)
    (hsecond : 0 < second) (heq : alternativeName base first = alternativeName base second) :
    first = second := by
  rw [alternativeName, alternativeName, if_pos hfirst, if_pos hsecond] at heq
  have hdigits := congrArg (fun digits => Nat.ofDigitChars 10 digits 0)
    (List.append_cancel_left heq)
  simpa only [Nat.ofDigitChars_toDigits (show 1 < 10 by decide) le_rfl] using hdigits

theorem lookup_mem {name : Name} {symbol : Symbol} (hlookup : table.lookup name = some symbol) :
    name ∈ table.entries.map Prod.fst := by
  obtain ⟨entry, hentry, rfl⟩ := Option.map_eq_some_iff.mp hlookup
  have hname := List.find?_some hentry
  rw [decide_eq_true_eq] at hname
  exact List.mem_map.mpr ⟨entry, List.mem_of_find?_eq_some hentry, hname⟩

/-- Some name above 10000 is not taken. -/
theorem exists_free_name (table : SymbolTable) (base : Name) :
    ∃ copy, 10000 < copy ∧ copy ≤ 10001 + table.entries.length ∧
      table.lookup (alternativeName base copy) = none := by
  by_contra hnone
  have htaken : ∀ copy ∈ List.range' 10001 (table.entries.length + 1),
      alternativeName base copy ∈ table.entries.map Prod.fst := by
    intro copy hcopy
    obtain ⟨hlow, hhigh⟩ := List.mem_range'_1.mp hcopy
    cases hlookup : table.lookup (alternativeName base copy) with
    | none => exact (hnone ⟨copy, hlow, by omega, hlookup⟩).elim
    | some symbol => exact lookup_mem hlookup
  have hnodup : ((List.range' 10001 (table.entries.length + 1)).map
      (alternativeName base)).Nodup := by
    refine List.Nodup.map_on (fun first hfirst second hsecond heq => ?_) List.nodup_range'
    exact alternativeName_injective base (by have := List.mem_range'_1.mp hfirst; omega)
      (by have := List.mem_range'_1.mp hsecond; omega) heq
  have hle := (hnodup.subperm fun name hname => by
    obtain ⟨copy, hcopy, rfl⟩ := List.mem_map.mp hname
    exact htaken copy hcopy).length_le
  rw [List.length_map, List.length_range', List.length_map] at hle
  exact Nat.not_succ_le_self _ hle

theorem findAlternative_extends (fuel : ℕ) :
    ∀ copy, (findAlternative table func block incoming opr base fuel copy).Extends
      (findAlternative table func block incoming opr base (fuel + 1) copy) := by
  induction fuel with
  | zero => exact fun _ => extends_outOfFuel _
  | succ fuel ih =>
      intro copy
      rw [findAlternative, findAlternative]
      cases table.lookup (alternativeName base copy) with
      | none =>
          dsimp only
          split
          · exact extends_refl _
          · exact ih (copy + 1)
      | some symbol =>
          refine (extends_refl _).bind fun alternative => (extends_refl _).bind fun found => ?_
          cases found with
          | true => exact extends_refl _
          | false => exact ih (copy + 1)

/-- A step of the search ends it or passes over a name. -/
theorem findAlternative_step (fuel copy : ℕ) :
    Ends table func block incoming opr base copy
        (findAlternative table func block incoming opr base (fuel + 1) copy) ∨
      Passed table func block incoming opr base copy ∧
        findAlternative table func block incoming opr base (fuel + 1) copy =
          findAlternative table func block incoming opr base fuel (copy + 1) := by
  rw [findAlternative]
  cases hlookup : table.lookup (alternativeName base copy) with
  | none =>
      dsimp only
      split
      · rename_i hlt
        exact .inl (.free hlookup hlt)
      · rename_i hle
        exact .inr ⟨.free hlookup (Nat.not_lt.mp hle), rfl⟩
  | some symbol =>
      cases symbol with
      | other => exact .inl (.foreign hlookup fun value heq => by cases heq)
      | instruction value =>
          simp only [Symbol.instruction?, asserted, bind, Except.bind]
          rcases dominatesUse_result value with ⟨found, huse⟩ | huse
          · rw [huse]
            cases found with
            | true => exact .inl (.found hlookup huse)
            | false => exact .inr ⟨.undominated hlookup huse, rfl⟩
          · rw [huse]
            refine .inl (.foreign hlookup fun other heq => ?_)
            rwa [← Symbol.instruction.inj heq]

theorem Ends.halts {copy : ℕ} {result : FuelledRun ValueId}
    (hends : Ends table func block incoming opr base copy result) : result.Halts := by
  cases hends with
  | found => exact halts_ok _
  | free => exact halts_aborted
  | foreign => exact halts_assertion

/-- The search ends at a free name at the latest. -/
theorem findAlternative_halts {free : ℕ} (hfree : 10000 < free)
    (hlookup : table.lookup (alternativeName base free) = none) (fuel : ℕ) :
    ∀ copy ≤ free, free < copy + fuel →
      (findAlternative table func block incoming opr base fuel copy).Halts := by
  induction fuel with
  | zero => exact fun copy hle hlt => (Nat.not_lt.mpr hle hlt).elim
  | succ fuel ih =>
      intro copy hle hlt
      rcases findAlternative_step fuel copy with hends | ⟨hpassed, heq⟩
      · exact hends.halts
      · rw [heq]
        have hne : copy ≠ free := by
          rintro rfl
          cases hpassed with
          | free _ hbound => exact Nat.not_lt.mpr hbound hfree
          | undominated hother =>
              rw [hlookup] at hother
              cases hother
        exact ih (copy + 1) (by omega) (by omega)

/-- A search that halts has passed over all the names before the one it ends at. -/
theorem findAlternative_ends (fuel : ℕ) :
    ∀ copy, (findAlternative table func block incoming opr base fuel copy).Halts →
      ∃ last ≥ copy, (∀ other, copy ≤ other → other < last →
          Passed table func block incoming opr base other) ∧
        Ends table func block incoming opr base last
          (findAlternative table func block incoming opr base fuel copy) := by
  induction fuel with
  | zero => exact fun copy hhalts => (hhalts rfl).elim
  | succ fuel ih =>
      intro copy hhalts
      rcases findAlternative_step fuel copy with hends | ⟨hpassed, heq⟩
      · exact ⟨copy, le_rfl, fun other hle hlt => (Nat.not_lt.mpr hle hlt).elim, hends⟩
      · rw [heq] at hhalts ⊢
        obtain ⟨last, hle, hbefore, hends⟩ := ih (copy + 1) hhalts
        refine ⟨last, Nat.le_of_succ_le hle, fun other hother hlt => ?_, hends⟩
        rcases Nat.eq_or_lt_of_le hother with rfl | hother
        · exact hpassed
        · exact hbefore other hother hlt

end Search

section Uses

variable (table : SymbolTable) (func : Func) (block : BlockId)

/-- The operand is no instruction, or its definition dominates the use. -/
def UseDominated (incoming : Option (List BlockId)) (opr : ℕ) (operand : ValueId) : Prop :=
  parent func operand = none ∨ dominatesUse func block incoming opr operand = .ok true

/-- The operand, or a value that has its name with another suffix. -/
def Replaced (operand other : ValueId) : Prop :=
  other = operand ∨ ∃ copy,
    table.lookup (alternativeName (baseName (table.getName operand)) copy) =
      some (.instruction other)

/-- A use that the search finds no value for.  It has passed over free names up to the suffix
10000 and names of values that do not dominate the use, and ends with a free name above, or with
one that is not the name of an instruction of the function. -/
inductive Unfixable (incoming : Option (List BlockId)) (values : List ValueId) : Stop → Prop
  | hopeless {opr copy : ℕ} {operand : ValueId} (hoperand : values[opr]? = some operand)
      (huse : dominatesUse func block incoming opr operand = .ok false)
      (hbefore : ∀ other < copy,
        Passed table func block incoming opr (baseName (table.getName operand)) other)
      (hlookup : table.lookup (alternativeName (baseName (table.getName operand)) copy) = none)
      (hlarge : 10000 < copy) : Unfixable incoming values .aborted
  | foreign {opr copy : ℕ} {operand : ValueId} {symbol : Symbol}
      (hoperand : values[opr]? = some operand)
      (huse : dominatesUse func block incoming opr operand = .ok false)
      (hbefore : ∀ other < copy,
        Passed table func block incoming opr (baseName (table.getName operand)) other)
      (hlookup : table.lookup (alternativeName (baseName (table.getName operand)) copy) =
        some symbol)
      (hsymbol : ∀ value, symbol = .instruction value → parent func value = none) :
      Unfixable incoming values .assertion

/-- All uses in a block. -/
structure BlockDominated (content : Block) : Prop where
  instrs : ∀ instr ∈ content.instrs, ∀ (opr : ℕ) (operand : ValueId),
    (operands instr.kind)[opr]? = some operand →
      UseDominated func block (incomingBlocks instr.kind) opr operand
  term : ∀ (opr : ℕ) (operand : ValueId), content.term.operands[opr]? = some operand →
    UseDominated func block none opr operand

def BlockUnfixable (content : Block) (stop : Stop) : Prop :=
  (∃ instr ∈ content.instrs,
      Unfixable table func block (incomingBlocks instr.kind) (operands instr.kind) stop) ∨
    Unfixable table func block none content.term.operands stop

/-- The list of operands after some of them have been repaired. -/
structure FixedTo (incoming : Option (List BlockId)) (values : List ValueId) (changed : Bool)
    (count : ℕ) (state : List ValueId × Bool) : Prop where
  length_eq : state.1.length = values.length
  replaced : ∀ (opr : ℕ) (operand other : ValueId), values[opr]? = some operand →
    state.1[opr]? = some other → Replaced table operand other
  dominated : ∀ opr < count, ∀ operand, state.1[opr]? = some operand →
    UseDominated func block incoming opr operand
  rest : ∀ opr : ℕ, count ≤ opr → state.1[opr]? = values[opr]?
  unchanged : state.2 = false → changed = false ∧ state.1 = values

variable {table func block} {incoming : Option (List BlockId)} {values : List ValueId}
  {changed : Bool} {fuel count : ℕ} {state state' : List ValueId × Bool}

theorem FixedTo.start : FixedTo table func block incoming values changed 0 (values, changed) where
  length_eq := rfl
  replaced opr operand other hoperand hother := by
    rw [hoperand] at hother
    exact .inl (Option.some.inj hother).symm
  dominated opr hlt := (Nat.not_lt_zero opr hlt).elim
  rest _ _ := rfl
  unchanged heq := ⟨heq, rfl⟩

theorem FixedTo.keep (hfixed : FixedTo table func block incoming values changed count state)
    (huse : ∀ operand, state.1[count]? = some operand →
      UseDominated func block incoming count operand) :
    FixedTo table func block incoming values changed (count + 1) state where
  length_eq := hfixed.length_eq
  replaced := hfixed.replaced
  dominated opr hlt operand hoperand := by
    rcases Nat.lt_succ_iff_lt_or_eq.mp hlt with hlt | rfl
    · exact hfixed.dominated opr hlt operand hoperand
    · exact huse operand hoperand
  rest opr hle := hfixed.rest opr (Nat.le_of_succ_le hle)
  unchanged := hfixed.unchanged

theorem FixedTo.set {operand alternative : ValueId}
    (hfixed : FixedTo table func block incoming values changed count state)
    (hoperand : state.1[count]? = some operand) (halternative : Replaced table operand alternative)
    (huse : dominatesUse func block incoming count alternative = .ok true) :
    FixedTo table func block incoming values changed (count + 1)
      (state.1.set count alternative, true) where
  length_eq := by rw [List.length_set, hfixed.length_eq]
  replaced opr first other hfirst hother := by
    by_cases heq : count = opr
    · subst heq
      rw [hfixed.rest count le_rfl, hfirst] at hoperand
      rw [List.getElem?_set_self (by
        rw [hfixed.length_eq]
        exact (List.getElem?_eq_some_iff.mp hfirst).1)] at hother
      exact Option.some.inj hother ▸ Option.some.inj hoperand ▸ halternative
    · rw [List.getElem?_set_ne heq] at hother
      exact hfixed.replaced opr first other hfirst hother
  dominated opr hlt other hother := by
    rcases Nat.lt_succ_iff_lt_or_eq.mp hlt with hlt | rfl
    · rw [List.getElem?_set_ne (Nat.ne_of_gt hlt)] at hother
      exact hfixed.dominated opr hlt other hother
    · rw [List.getElem?_set_self (List.getElem?_eq_some_iff.mp hoperand).1] at hother
      exact .inr (Option.some.inj hother ▸ huse)
  rest opr hle := by
    rw [List.getElem?_set_ne (Nat.ne_of_lt hle), hfixed.rest opr (Nat.le_of_succ_le hle)]
  unchanged heq := by cases heq

theorem FixedTo.step (hfixed : FixedTo table func block incoming values changed count state)
    (hfix : fixOperand table func block fuel incoming state count = .ok state') :
    FixedTo table func block incoming values changed (count + 1) state' := by
  obtain ⟨operand, hoperand, hfix⟩ := bind_eq_ok.mp hfix
  rw [asserted_eq_ok] at hoperand
  split at hfix
  · rename_i hnone
    obtain rfl := Except.ok.inj hfix
    refine hfixed.keep fun other hother => .inl ?_
    rw [hoperand] at hother
    exact Option.some.inj hother ▸ Option.isNone_iff_eq_none.mp hnone
  · obtain ⟨found, hfound, hfix⟩ := bind_eq_ok.mp hfix
    cases found with
    | true =>
        obtain rfl := Except.ok.inj hfix
        refine hfixed.keep fun other hother => .inr ?_
        rw [hoperand] at hother
        exact Option.some.inj hother ▸ hfound
    | false =>
        obtain ⟨alternative, hsearch, hfix⟩ := bind_eq_ok.mp hfix
        obtain rfl := Except.ok.inj hfix
        obtain ⟨last, -, -, hends⟩ :=
          findAlternative_ends fuel 0 (hsearch ▸ halts_ok alternative)
        rw [hsearch] at hends
        cases hends with
        | found hlookup huse => exact hfixed.set hoperand (.inr ⟨last, hlookup⟩) huse

/-- A PHI node has as many blocks as operands. -/
def Fits (incoming : Option (List BlockId)) (values : List ValueId) : Prop :=
  ∀ preds, incoming = some preds → preds.length = values.length

theorem dominatesUse_ne_assertion {operand : ValueId} (hfits : Fits incoming values)
    (hlt : count < values.length) (hparent : parent func operand ≠ none) :
    dominatesUse func block incoming count operand ≠ .error .assertion := by
  obtain ⟨opBlock, hopBlock⟩ := Option.ne_none_iff_exists'.mp hparent
  unfold dominatesUse
  rw [hopBlock]
  cases incoming with
  | none => simp [asserted, bind, Except.bind]
  | some preds =>
      rw [← hfits preds rfl] at hlt
      simp [asserted, bind, Except.bind, List.getElem?_eq_getElem hlt]

theorem FixedTo.stop {stop : Stop}
    (hfixed : FixedTo table func block incoming values changed count state)
    (hfits : Fits incoming values) (hlt : count < values.length) (hstop : stop ≠ .outOfFuel)
    (hfix : fixOperand table func block fuel incoming state count = .error stop) :
    Unfixable table func block incoming values stop := by
  have hget := hfixed.rest count le_rfl
  rw [List.getElem?_eq_getElem hlt] at hget
  unfold fixOperand at hfix
  rw [hget] at hfix
  simp only [asserted, bind, Except.bind] at hfix
  split at hfix
  · cases hfix
  · rename_i hparent
    rw [Option.isNone_iff_eq_none] at hparent
    rcases dominatesUse_result values[count] with ⟨found, huse⟩ | huse
    · rw [huse] at hfix
      cases found with
      | true => cases hfix
      | false =>
          have hoperand : values[count]? = some values[count] := List.getElem?_eq_getElem hlt
          obtain hsearch | ⟨_, -, hfix⟩ := bind_eq_error.mp hfix
          · obtain ⟨last, -, hbefore, hends⟩ := findAlternative_ends fuel 0 (by
              rw [hsearch]
              exact fun heq => hstop (Except.error.inj heq))
            rw [hsearch] at hends
            replace hbefore := fun other => hbefore other (Nat.zero_le other)
            cases hends with
            | free hlookup hlarge => exact .hopeless hoperand huse hbefore hlookup hlarge
            | foreign hlookup hsymbol =>
                refine .foreign hoperand huse hbefore hlookup fun value heq => ?_
                by_contra hvalue
                exact dominatesUse_ne_assertion hfits hlt hvalue (hsymbol value heq)
          · cases hfix
    · exact (dominatesUse_ne_assertion hfits hlt hparent huse).elim

theorem range_split {n item : ℕ} {seen rest : List ℕ}
    (hsplit : List.range n = seen ++ item :: rest) : item = seen.length := by
  have hget := congrArg (fun items => items[seen.length]?) hsplit
  simp only [List.getElem?_append_right le_rfl, Nat.sub_self, List.getElem?_cons_zero] at hget
  obtain ⟨hlt, heq⟩ := List.getElem?_eq_some_iff.mp hget
  rw [List.getElem_range] at heq
  exact heq.symm

theorem FixedTo.forall₂
    (hfixed : FixedTo table func block incoming values changed count state) :
    List.Forall₂ (Replaced table) values state.1 := by
  refine List.forall₂_iff_get.mpr ⟨hfixed.length_eq.symm, fun opr hlt hlt' => ?_⟩
  exact hfixed.replaced opr _ _ (List.getElem?_eq_getElem hlt) (List.getElem?_eq_getElem hlt')

theorem fixOperand_split (seen : List ℕ) (item : ℕ) (rest : List ℕ)
    (hsplit : List.range values.length = seen ++ item :: rest)
    (state state' : List ValueId × Bool)
    (hfixed : FixedTo table func block incoming values changed seen.length state)
    (hfix : fixOperand table func block fuel incoming state item = .ok state') :
    FixedTo table func block incoming values changed (seen ++ [item]).length state' := by
  rw [List.length_append, List.length_singleton]
  exact hfixed.step (range_split hsplit ▸ hfix)

theorem fixOperands_fixed
    (hfix : fixOperands table func block fuel incoming values changed = .ok state) :
    FixedTo table func block incoming values changed values.length state := by
  have hrun := foldlM_split fixOperand_split .start hfix
  rwa [List.length_range] at hrun

theorem fixOperands_stop {stop : Stop} (hfits : Fits incoming values)
    (hstop : stop ≠ .outOfFuel)
    (hfix : fixOperands table func block fuel incoming values changed = .error stop) :
    Unfixable table func block incoming values stop := by
  obtain ⟨seen, item, rest, state, hsplit, hfixed, hstep⟩ :=
    foldlM_stop fixOperand_split .start hfix
  have hitem : item ∈ List.range values.length := by
    rw [hsplit]
    simp
  obtain rfl := range_split hsplit
  exact hfixed.stop hfits (List.mem_range.mp hitem) hstop hstep

end Uses

section Instructions

variable {table : SymbolTable} {func : Func} {block : BlockId} {fuel : ℕ}

theorem fits_operands (kind : InstrKind) : Fits (incomingBlocks kind) (operands kind) := by
  intro preds hpreds
  cases kind with
  | barrier => cases hpreds
  | phi incoming =>
      obtain rfl := Option.some.inj hpreds
      rw [operands, List.length_map, List.length_map]
  | other opcode values => cases hpreds

theorem setOperands_self (kind : InstrKind) : setOperands kind (operands kind) = kind := by
  cases kind with
  | barrier => rfl
  | phi incoming =>
      rw [operands, setOperands, List.zip_map']
      simp
  | other opcode values => rfl

theorem operands_setOperands (kind : InstrKind) {values : List ValueId}
    (hlength : values.length = (operands kind).length) :
    operands (setOperands kind values) = values := by
  cases kind with
  | barrier => exact (List.eq_nil_of_length_eq_zero hlength).symm
  | phi incoming =>
      rw [operands, List.length_map] at hlength
      refine List.map_fst_zip ?_
      rw [List.length_map, hlength]
  | other opcode values => rfl

theorem incomingBlocks_setOperands (kind : InstrKind) {values : List ValueId}
    (hlength : values.length = (operands kind).length) :
    incomingBlocks (setOperands kind values) = incomingBlocks kind := by
  cases kind with
  | barrier => rfl
  | phi incoming =>
      rw [operands, List.length_map] at hlength
      refine congrArg some (List.map_snd_zip ?_)
      rw [List.length_map, hlength]
  | other opcode values => rfl

theorem relatedKind_setOperands {value : ValueId → ValueId → Prop} (kind : InstrKind)
    {values : List ValueId} (hvalues : List.Forall₂ value (operands kind) values) :
    RelatedKind value Eq kind (setOperands kind values) := by
  cases kind with
  | barrier => exact .barrier
  | phi incoming =>
      refine .phi ?_
      rw [operands, List.forall₂_map_left_iff] at hvalues
      induction hvalues with
      | nil => exact .nil
      | cons hentry _ ih => exact .cons ⟨hentry, rfl⟩ ih
  | other opcode values => exact .other opcode hvalues

/-- The instruction after its repair. -/
structure InstrFixed (table : SymbolTable) (func : Func) (block : BlockId) (instr other : Instr) :
    Prop where
  related : RelatedInstr id (Replaced table) Eq instr other
  dominated : ∀ (opr : ℕ) (operand : ValueId), (operands other.kind)[opr]? = some operand →
    UseDominated func block (incomingBlocks other.kind) opr operand

/-- The instructions after the repair of the ones seen. -/
structure InstrsFixed (table : SymbolTable) (func : Func) (block : BlockId) (changed : Bool)
    (seen : List Instr) (state : List Instr × Bool) : Prop where
  fixed : List.Forall₂ (InstrFixed table func block) seen state.1
  unchanged : state.2 = false → changed = false ∧ state.1 = seen

theorem InstrsFixed.step {changed : Bool} {seen : List Instr} {instr : Instr}
    {state state' : List Instr × Bool}
    (hfixed : InstrsFixed table func block changed seen state)
    (hfix : fixInstr table func block fuel state instr = .ok state') :
    InstrsFixed table func block changed (seen ++ [instr]) state' := by
  obtain ⟨⟨values, after⟩, hvalues, hfix⟩ := bind_eq_ok.mp hfix
  obtain rfl := Except.ok.inj hfix
  have hall := fixOperands_fixed hvalues
  constructor
  · refine List.rel_append hfixed.fixed (.cons ?_ .nil)
    refine ⟨⟨rfl, relatedKind_setOperands instr.kind hall.forall₂⟩, fun opr operand hoperand => ?_⟩
    rw [operands_setOperands instr.kind hall.length_eq] at hoperand
    rw [incomingBlocks_setOperands instr.kind hall.length_eq]
    refine hall.dominated opr ?_ operand hoperand
    exact hall.length_eq ▸ (List.getElem?_eq_some_iff.mp hoperand).1
  · intro heq
    obtain ⟨hbefore, hsame⟩ := hall.unchanged heq
    obtain ⟨hchanged, hseen⟩ := hfixed.unchanged hbefore
    refine ⟨hchanged, ?_⟩
    dsimp only at hsame ⊢
    rw [hsame, setOperands_self, hseen]

theorem fixInstr_split {changed : Bool} {instrs : List Instr} (seen : List Instr) (instr : Instr)
    (rest : List Instr) (_ : instrs = seen ++ instr :: rest) (state state' : List Instr × Bool)
    (hfixed : InstrsFixed table func block changed seen state)
    (hfix : fixInstr table func block fuel state instr = .ok state') :
    InstrsFixed table func block changed (seen ++ [instr]) state' :=
  hfixed.step hfix

theorem fixInstrs_fixed {changed : Bool} {instrs : List Instr} {state : List Instr × Bool}
    (hfix : instrs.foldlM (fixInstr table func block fuel) ([], changed) = .ok state) :
    InstrsFixed table func block changed instrs state :=
  foldlM_split fixInstr_split ⟨.nil, fun heq => ⟨heq, rfl⟩⟩ hfix

theorem fixInstrs_stop {changed : Bool} {instrs : List Instr} {stop : Stop}
    (hstop : stop ≠ .outOfFuel)
    (hfix : instrs.foldlM (fixInstr table func block fuel) ([], changed) = .error stop) :
    ∃ instr ∈ instrs,
      Unfixable table func block (incomingBlocks instr.kind) (operands instr.kind) stop := by
  obtain ⟨seen, instr, rest, state, rfl, -, hstep⟩ := foldlM_eq_error hfix
  refine ⟨instr, by simp, ?_⟩
  obtain hvalues | ⟨_, -, hend⟩ := bind_eq_error.mp hstep
  · exact fixOperands_stop (fits_operands instr.kind) hstop hvalues
  · cases hend

end Instructions

section Blocks

variable (table : SymbolTable) (func : Func)

structure BlockFixed (block : BlockId) (content other : Block) : Prop where
  related : RelatedBlock id (Replaced table) Eq content other
  dominated : BlockDominated func block other

/-- The function after the repair of the blocks seen. -/
structure BlocksFixed (seen : List BlockId) (state : Func × Bool) : Prop where
  order_eq : state.1.order = func.order
  fixed : ∀ block ∈ seen, BlockFixed table func block (func.body block) (state.1.body block)
  rest : ∀ block ∉ seen, state.1.body block = func.body block
  unchanged : state.2 = false → state.1 = func

variable {table func} {block : BlockId} {fuel : ℕ} {state state' : Func × Bool}

theorem forall₂_mem_right {α β : Type*} {relation : α → β → Prop} {first : List α}
    {second : List β} (hall : List.Forall₂ relation first second) {other : β}
    (hother : other ∈ second) : ∃ entry ∈ first, relation entry other := by
  induction hall with
  | nil => cases hother
  | cons hentry _ ih =>
      rcases List.mem_cons.mp hother with rfl | hrest
      · exact ⟨_, by simp, hentry⟩
      · obtain ⟨entry, hmem, hrelated⟩ := ih hrest
        exact ⟨entry, by simp [hmem], hrelated⟩

theorem setBody_eq_self (func : Func) (block : BlockId) :
    func.setBody block (func.body block) = func := by
  rw [Func.setBody, Function.update_eq_self]

theorem BlocksFixed.step {seen : List BlockId} (hfixed : BlocksFixed table func seen state)
    (hblock : block ∉ seen) (hfix : fixBlock table func fuel state block = .ok state') :
    BlocksFixed table func (seen ++ [block]) state' := by
  obtain ⟨⟨instrs, middle⟩, hinstrs, hfix⟩ := bind_eq_ok.mp hfix
  obtain ⟨⟨values, after⟩, hvalues, hfix⟩ := bind_eq_ok.mp hfix
  obtain rfl := Except.ok.inj hfix
  have hbody := hfixed.rest block hblock
  have hall := fixInstrs_fixed hinstrs
  have hterm := fixOperands_fixed hvalues
  refine ⟨hfixed.order_eq, ?_, ?_, fun heq => ?_⟩
  · intro other hother
    rcases List.mem_append.mp hother with hseen | hother
    · rw [Func.setBody_of_ne _ _ fun heq : other = block => hblock (heq ▸ hseen)]
      exact hfixed.fixed other hseen
    · obtain rfl := List.mem_singleton.mp hother
      rw [Func.setBody_self, ← hbody]
      have hsuccs := List.forall₂_same.mpr fun (target : BlockId)
        (_ : target ∈ (state.1.body other).term.succs) => rfl
      refine ⟨⟨hall.fixed.imp fun _ _ hinstr => hinstr.related, rfl, rfl, hterm.forall₂, hsuccs⟩,
        fun instr hinstr => ?_, fun opr operand hoperand => ?_⟩
      · obtain ⟨_, -, hinstr⟩ := forall₂_mem_right hall.fixed hinstr
        exact hinstr.dominated
      · refine hterm.dominated opr ?_ operand hoperand
        exact hterm.length_eq ▸ (List.getElem?_eq_some_iff.mp hoperand).1
  · intro other hother
    rw [List.mem_append, List.mem_singleton, not_or] at hother
    rw [Func.setBody_of_ne _ _ hother.2]
    exact hfixed.rest other hother.1
  · obtain ⟨hmiddle, hsame⟩ := hterm.unchanged heq
    obtain ⟨hbefore, hinstrs⟩ := hall.unchanged hmiddle
    dsimp only at hsame hinstrs ⊢
    rw [hsame, hinstrs, setBody_eq_self, hfixed.unchanged hbefore]

theorem fixBlock_split (hnodup : func.order.Nodup) (seen : List BlockId) (block : BlockId)
    (rest : List BlockId) (hsplit : func.order = seen ++ block :: rest) (state state' : Func × Bool)
    (hfixed : BlocksFixed table func seen state)
    (hfix : fixBlock table func fuel state block = .ok state') :
    BlocksFixed table func (seen ++ [block]) state' := by
  rw [hsplit] at hnodup
  exact hfixed.step (fun hmem => List.disjoint_of_nodup_append hnodup hmem (by simp)) hfix

theorem BlocksFixed.start : BlocksFixed table func [] (func, false) where
  order_eq := rfl
  fixed block hblock := by cases hblock
  rest _ _ := rfl
  unchanged _ := rfl

theorem fixBlocks_stop {stop : Stop} (hnodup : func.order.Nodup) (hstop : stop ≠ .outOfFuel)
    (hfix : fixUndominatedVariableUses table func fuel = .error stop) :
    ∃ block ∈ func.order, BlockUnfixable table func block (func.body block) stop := by
  obtain ⟨seen, block, rest, state, hsplit, hfixed, hstep⟩ :=
    foldlM_stop (fixBlock_split hnodup) .start hfix
  refine ⟨block, by simp [hsplit], ?_⟩
  have hblock : block ∉ seen := by
    rw [hsplit] at hnodup
    exact fun hmem => List.disjoint_of_nodup_append hnodup hmem (by simp)
  rw [fixBlock, hfixed.rest block hblock] at hstep
  obtain hinstrs | ⟨_, -, hstep⟩ := bind_eq_error.mp hstep
  · exact .inl (fixInstrs_stop hstop hinstrs)
  · obtain hvalues | ⟨_, -, hend⟩ := bind_eq_error.mp hstep
    · exact .inr (fixOperands_stop (fun _ hpreds => by cases hpreds) hstop hvalues)
    · cases hend

end Blocks

section Shapes

variable {table : SymbolTable} {func : Func} {state : Func × Bool}

/-- The repair keeps where the values are defined, and the edges. -/
theorem BlocksFixed.parent_eq (hfixed : BlocksFixed table func func.order state)
    (value : ValueId) : parent state.1 value = parent func value := by
  have hvalues : ∀ block, blockValues (state.1.body block) = blockValues (func.body block) := by
    intro block
    by_cases hblock : block ∈ func.order
    · have hrelated := (hfixed.fixed block hblock).related
      rw [blockValues, blockValues, map_id_of_related hrelated.instrs, hrelated.term_id]
      rfl
    · rw [hfixed.rest block hblock]
  rw [parent, parent, hfixed.order_eq]
  simp only [hvalues]

theorem BlocksFixed.dominates_eq (hfixed : BlocksFixed table func func.order state) :
    state.1.dominates = func.dominates := by
  have hsuccs : state.1.succs = func.succs := by
    funext block
    by_cases hblock : block ∈ func.order
    · exact (List.forall₂_eq_eq_eq ▸ (hfixed.fixed block hblock).related.succs :
        (func.body block).term.succs = (state.1.body block).term.succs).symm
    · rw [Func.succs, hfixed.rest block hblock, Func.succs]
  funext dominator block
  rw [Func.dominates, Func.dominates, Func.graph, Func.graph, Func.entry, Func.entry,
    hfixed.order_eq, hsuccs]

theorem BlocksFixed.dominatesUse_eq (hfixed : BlocksFixed table func func.order state)
    (block : BlockId) (incoming : Option (List BlockId)) (opr : ℕ) (operand : ValueId) :
    dominatesUse state.1 block incoming opr operand =
      dominatesUse func block incoming opr operand := by
  rw [dominatesUse, dominatesUse, hfixed.parent_eq, hfixed.dominates_eq]

theorem BlocksFixed.useDominated_iff (hfixed : BlocksFixed table func func.order state)
    {block : BlockId} {incoming : Option (List BlockId)} {opr : ℕ} {operand : ValueId} :
    UseDominated state.1 block incoming opr operand ↔
      UseDominated func block incoming opr operand := by
  rw [UseDominated, UseDominated, hfixed.parent_eq, hfixed.dominatesUse_eq]

theorem BlocksFixed.blockDominated (hfixed : BlocksFixed table func func.order state)
    {block : BlockId} (hblock : block ∈ func.order) :
    BlockDominated state.1 block (state.1.body block) where
  instrs instr hinstr opr operand hoperand :=
    hfixed.useDominated_iff.mpr
      ((hfixed.fixed block hblock).dominated.instrs instr hinstr opr operand hoperand)
  term opr operand hoperand :=
    hfixed.useDominated_iff.mpr
      ((hfixed.fixed block hblock).dominated.term opr operand hoperand)

end Shapes

section Settled

variable (table : SymbolTable) {func : Func} {block : BlockId} (fuel : ℕ)

theorem fixOperand_settled {incoming : Option (List BlockId)} {state : List ValueId × Bool}
    {opr : ℕ} (hlt : opr < state.1.length)
    (huse : UseDominated func block incoming opr state.1[opr]) :
    fixOperand table func block fuel incoming state opr = .ok state := by
  rw [fixOperand, List.getElem?_eq_getElem hlt]
  simp only [asserted, bind, Except.bind]
  rcases huse with hnone | hdominates
  · rw [if_pos (Option.isNone_iff_eq_none.mpr hnone)]
  · split
    · rfl
    · rw [hdominates]
      rfl

theorem fixOperands_settled {incoming : Option (List BlockId)} {values : List ValueId}
    (changed : Bool) (huses : ∀ (opr : ℕ) (operand : ValueId), values[opr]? = some operand →
      UseDominated func block incoming opr operand) :
    fixOperands table func block fuel incoming values changed = .ok (values, changed) := by
  refine foldlM_settled fun opr hopr => ?_
  have hlt := List.mem_range.mp hopr
  exact fixOperand_settled table fuel hlt (huses opr _ (List.getElem?_eq_getElem hlt))

theorem fixInstrs_settled {instrs : List Instr} (changed : Bool)
    (huses : ∀ instr ∈ instrs, ∀ (opr : ℕ) (operand : ValueId),
      (operands instr.kind)[opr]? = some operand →
        UseDominated func block (incomingBlocks instr.kind) opr operand) (before : List Instr) :
    instrs.foldlM (fixInstr table func block fuel) (before, changed) =
      .ok (before ++ instrs, changed) := by
  induction instrs generalizing before with
  | nil => rw [List.append_nil]; rfl
  | cons instr rest ih =>
      rw [List.foldlM_cons, fixInstr,
        fixOperands_settled table fuel changed (huses instr (by simp))]
      simp only [bind, Except.bind, setOperands_self]
      have hrest := ih (fun other hother => huses other (List.mem_cons_of_mem instr hother))
        (before ++ [instr])
      rwa [List.append_assoc] at hrest

/-- A function all of whose uses are dominated is kept. -/
theorem fixBlocks_settled
    (hall : ∀ block ∈ func.order, BlockDominated func block (func.body block)) :
    fixUndominatedVariableUses table func fuel = .ok (func, false) := by
  refine foldlM_settled fun block hblock => ?_
  rw [fixBlock, fixInstrs_settled table fuel false (hall block hblock).instrs]
  simp only [bind, Except.bind, List.nil_append]
  rw [fixOperands_settled table fuel false (hall block hblock).term]
  exact congrArg (fun kept => Except.ok (kept, false)) (setBody_eq_self func block)

end Settled

section Results

variable (table : SymbolTable) (func : Func)

/-- The function that the repair gives. -/
structure Repaired (other : Func) (changed : Bool) : Prop where
  order_eq : other.order = func.order
  related : ∀ block ∈ func.order,
    RelatedBlock id (Replaced table) Eq (func.body block) (other.body block)
  rest : ∀ block ∉ func.order, other.body block = func.body block
  dominated : ∀ block ∈ func.order, BlockDominated other block (other.body block)
  unchanged : changed = false → other = func
  settled : ∀ fuel, fixUndominatedVariableUses table other fuel = .ok (other, false)

inductive Outcome : FuelledRun (Func × Bool) → Prop
  | repaired {other : Func} {changed : Bool} (hrepaired : Repaired table func other changed) :
      Outcome (.ok (other, changed))
  | stopped {block : BlockId} {stop : Stop} (hblock : block ∈ func.order)
      (hstop : BlockUnfixable table func block (func.body block) stop) :
      Outcome (.error stop)

variable {table func} {block : BlockId}

theorem BlocksFixed.repaired {other : Func} {changed : Bool}
    (hfixed : BlocksFixed table func func.order (other, changed)) :
    Repaired table func other changed where
  order_eq := hfixed.order_eq
  related block hblock := (hfixed.fixed block hblock).related
  rest := hfixed.rest
  dominated block hblock := hfixed.blockDominated hblock
  unchanged := hfixed.unchanged
  settled fuel := by
    refine fixBlocks_settled table fuel fun block hblock => hfixed.blockDominated ?_
    rwa [← hfixed.order_eq]

theorem fixOperand_extends (fuel : ℕ) (incoming : Option (List BlockId))
    (state : List ValueId × Bool) (opr : ℕ) :
    (fixOperand table func block fuel incoming state opr).Extends
      (fixOperand table func block (fuel + 1) incoming state opr) := by
  refine (extends_refl _).bind fun operand => ?_
  split
  · exact extends_refl _
  · refine (extends_refl _).bind fun found => ?_
    cases found with
    | true => exact extends_refl _
    | false => exact (findAlternative_extends fuel 0).bind fun _ => extends_refl _

theorem fixOperands_extends (fuel : ℕ) (incoming : Option (List BlockId))
    (values : List ValueId) (changed : Bool) :
    (fixOperands table func block fuel incoming values changed).Extends
      (fixOperands table func block (fuel + 1) incoming values changed) :=
  extends_foldlM (fun opr _ state => fixOperand_extends fuel incoming state opr) _

theorem fixBlocks_extends (fuel : ℕ) :
    (fixUndominatedVariableUses table func fuel).Extends
      (fixUndominatedVariableUses table func (fuel + 1)) := by
  refine extends_foldlM (fun block _ state => ?_) _
  refine (extends_foldlM (fun instr _ state => ?_) _).bind fun instrs => ?_
  · exact (fixOperands_extends fuel _ _ _).bind fun _ => extends_refl _
  · exact (fixOperands_extends fuel _ _ _).bind fun _ => extends_refl _

theorem fixOperands_halts (incoming : Option (List BlockId)) (values : List ValueId)
    (changed : Bool) :
    (fixOperands table func block (10002 + table.entries.length) incoming values
      changed).Halts := by
  refine halts_foldlM (fun opr _ state => ?_) _
  refine (halts_asserted _).bind fun operand _ => ?_
  split
  · exact halts_ok _
  · obtain ⟨free, hlow, hhigh, hfree⟩ :=
      exists_free_name table (baseName (table.getName operand))
    refine (dominatesUse_halts operand).bind fun found _ => ?_
    cases found with
    | true => exact halts_ok _
    | false =>
        exact (findAlternative_halts hlow hfree _ 0 (Nat.zero_le _) (by omega)).bind
          fun _ _ => halts_ok _

theorem fixBlocks_halts (table : SymbolTable) (func : Func) :
    (fixUndominatedVariableUses table func (10002 + table.entries.length)).Halts := by
  refine halts_foldlM (fun block _ state => ?_) _
  refine (halts_foldlM (fun instr _ state => ?_) _).bind fun instrs _ => ?_
  · exact (fixOperands_halts _ _ _).bind fun _ _ => halts_ok _
  · exact (fixOperands_halts _ _ _).bind fun _ _ => halts_ok _

/-- The repair ends, and it stops only at a use that it finds no value for.  Otherwise all uses
are dominated afterwards, and the instructions agree up to the suffixes of their operands. -/
theorem fixUndominatedVariableUses_correct (table : SymbolTable) (func : Func)
    (hnodup : func.order.Nodup) :
    ∃ result : FuelledRun (Func × Bool), Outcome table func result ∧
      ∀ fuel ≥ 10002 + table.entries.length,
        fixUndominatedVariableUses table func fuel = result := by
  refine ⟨_, ?_, fun fuel hle => extends_of_le fixBlocks_extends hle (fixBlocks_halts table func)⟩
  cases hrun : fixUndominatedVariableUses table func (10002 + table.entries.length) with
  | error stop =>
      have hstop : stop ≠ .outOfFuel := by
        rintro rfl
        exact fixBlocks_halts table func hrun
      obtain ⟨block, hblock, hunfixable⟩ := fixBlocks_stop hnodup hstop hrun
      exact .stopped hblock hunfixable
  | ok state =>
      have hfixed := foldlM_split (fixBlock_split hnodup) .start hrun
      exact .repaired hfixed.repaired

/-- Block 4 uses the value 10 of block 1, but it comes after block 2, a copy of it. -/
def copiedBranch : Func :=
  { order := [0, 1, 2, 3, 4]
    body := fun block =>
      match block with
      | 0 => ⟨[], ⟨0, 0, [], [1, 2]⟩⟩
      | 1 => ⟨[⟨10, .other 1 []⟩], ⟨1, 0, [], [3]⟩⟩
      | 2 => ⟨[⟨20, .other 1 []⟩], ⟨2, 0, [], [4]⟩⟩
      | 4 => ⟨[⟨30, .other 2 [10, 7]⟩], ⟨4, 0, [30], []⟩⟩
      | block => ⟨[], ⟨block, 0, [], []⟩⟩
    freshBlock := 5
    freshValue := 31 }

def copiedNames : SymbolTable :=
  { getName := fun value => if value = 20 then "x.pocl_1".toList else ['x']
    entries := [(['x'], .instruction 10), ("x.pocl_1".toList, .instruction 20)] }

theorem fixUndominatedVariableUses_correct_copied :
    ∃ result : FuelledRun (Func × Bool), Outcome copiedNames copiedBranch result ∧
      ∀ fuel ≥ 10002 + copiedNames.entries.length,
        fixUndominatedVariableUses copiedNames copiedBranch fuel = result :=
  fixUndominatedVariableUses_correct copiedNames copiedBranch (by decide)

example :
    ((fixUndominatedVariableUses copiedNames copiedBranch 3).map fun state =>
        (state.1.body 4, state.2)) =
      .ok (⟨[⟨30, .other 2 [20, 7]⟩], ⟨4, 0, [30], []⟩⟩, true) := by
  decide

end Results

end Pocl.UndominatedUses
