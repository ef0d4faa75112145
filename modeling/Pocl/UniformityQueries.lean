import Pocl.AcyclicRelations
import Pocl.ConjunctiveSystems
import Pocl.FlowGraphs
import Pocl.VariableUniformity

/-!
# Sequences of uniformity queries

Every query stores its result, and a query for an alloca starts from the assumption
that the alloca is uniform.  The results are those of the greatest solution of the
equations between the values of the function, in whatever order they are asked for.

A query goes through the operands of instructions without a check for cycles.  The
dominance of definitions rules cycles out, but only in blocks that can be reached.
-/

namespace Pocl.UniformityQueries

open VariableUniformity (InstId groupVariables)

inductive Value
  | argument (index : ℕ)
  | constantInt (value : ℤ)
  /-- A global variable whose linkage is not internal. -/
  | global (name : String)
  /-- Functions, internal variables and constants that are not integers. -/
  | other (id : ℕ)
  | block (id : BlockId)
  | inst (id : InstId)
  deriving DecidableEq

inductive Inst
  | alloca (arraySize : Value)
  | load (pointer : Value)
  | store (value pointer : Value)
  | phi (incoming : List (Value × BlockId))
  /-- Any other instruction.  The blocks a terminator goes to are operands of it. -/
  | operation (operands : List Value)
  deriving DecidableEq

def Inst.operands : Inst → List Value
  | .alloca arraySize => [arraySize]
  | .load pointer => [pointer]
  | .store value pointer => [value, pointer]
  | .phi incoming => incoming.map Prod.fst
  | .operation operands => operands

def Inst.isAlloca : Inst → Bool
  | .alloca _ => true
  | _ => false

def Inst.isPhi : Inst → Bool
  | .phi _ => true
  | _ => false

structure Function where
  entry : BlockId
  blocks : List BlockId
  body : BlockId → List InstId
  inst : InstId → Inst
  parent : InstId → BlockId
  /-- The instructions that use a value, in the order of its uses. -/
  users : InstId → List InstId
  nodup_body : ∀ block, (body block).Nodup
  parent_eq : ∀ block, ∀ i ∈ body block, parent i = block
  mem_users : ∀ a i, i ∈ users a ↔
    i ∈ blocks.flatMap body ∧ .inst a ∈ (inst i).operands

def Function.insts (f : Function) : List InstId :=
  f.blocks.flatMap f.body

def Value.asBlock : Value → Option BlockId
  | .block id => some id
  | _ => none

def Function.succs (f : Function) (block : BlockId) : List BlockId :=
  match (f.body block).getLast? with
  | none => []
  | some i => (f.inst i).operands.filterMap Value.asBlock

def Function.graph (f : Function) : FlowGraph BlockId where
  entry := f.entry
  succs := f.succs

/-- The values of a function: its instructions, and all that are no instructions. -/
def Function.Mem (f : Function) : Value → Prop
  | .inst i => i ∈ f.insts
  | _ => True

def Value.isGroupVariable : Value → Bool
  | .global name => decide (name ∈ groupVariables)
  | _ => false

abbrev Cache := Value → Option Bool

def setUniform (cache : Cache) (value : Value) (uniform : Bool) : Cache :=
  Function.update cache value (some uniform)

section Queries

variable (query : Value → Cache → Option (Bool × Cache)) (f : Function)

/-- The users of an alloca in turn, up to one that is neither a load nor a store of a
uniform value. -/
def scanUsers : List InstId → Cache → Option (Bool × Cache)
  | [], cache => some (true, cache)
  | user :: users, cache =>
      match f.inst user with
      | .store value _ =>
          match query value cache with
          | none => none
          | some (false, cache) => some (false, cache)
          | some (true, cache) => scanUsers users cache
      | .load _ => scanUsers users cache
      | _ => some (false, cache)

/-- The operands in turn, up to one that is not uniform. -/
def scanOperands : List Value → Cache → Option (Bool × Cache)
  | [], cache => some (true, cache)
  | operand :: operands, cache =>
      match query operand cache with
      | none => none
      | some (false, cache) => some (false, cache)
      | some (true, cache) => scanOperands operands cache

end Queries

/-- `isUniform`, with a bound on the depth of the recursion. -/
def isUniform (f : Function) : ℕ → Value → Cache → Option (Bool × Cache)
  | 0, _, _ => none
  | fuel + 1, value, cache =>
      match cache value with
      | some uniform => some (uniform, cache)
      | none =>
          match value with
          | .block id =>
              if id = f.entry then some (true, setUniform cache value true)
              else some (false, setUniform cache value false)
          | .argument _ => some (true, setUniform cache value true)
          | .constantInt _ => some (true, setUniform cache value true)
          | .global _ => some (false, setUniform cache value false)
          | .other _ => some (false, setUniform cache value false)
          | .inst i =>
              match f.inst i with
              | .alloca _ =>
                  (scanUsers (isUniform f fuel) f (f.users i)
                      (setUniform cache value true)).map fun (uniform, checked) =>
                    (uniform, setUniform (if uniform then checked else cache) value uniform)
              | .load pointer =>
                  if pointer.isGroupVariable then some (true, setUniform cache value true)
                  else
                    (scanOperands (isUniform f fuel) [pointer] cache).map
                      fun (uniform, next) => (uniform, setUniform next value uniform)
              | .phi _ => some (false, setUniform cache value false)
              | inst =>
                  (scanOperands (isUniform f fuel) inst.operands cache).map
                    fun (uniform, next) => (uniform, setUniform next value uniform)

/-- A sequence of queries with their results. -/
def queryAll (f : Function) (fuel : ℕ) :
    List Value → Cache → Option (List Bool × Cache)
  | [], cache => some ([], cache)
  | value :: values, cache => do
      let (uniform, cache) ← isUniform f fuel value cache
      let (rest, cache) ← queryAll f fuel values cache
      return (uniform :: rest, cache)

/-- The equation of a value, in which the results stored beforehand are given. -/
def Equation (f : Function) (stored : Cache) (solution : Set Value) (value : Value) :
    Prop :=
  match stored value with
  | some uniform => uniform = true
  | none =>
      match value with
      | .argument _ => True
      | .constantInt _ => True
      | .global _ => False
      | .other _ => False
      | .block id => id = f.entry
      | .inst i =>
          match f.inst i with
          | .alloca _ => ∀ user ∈ f.users i, (∃ pointer, f.inst user = .load pointer) ∨
              ∃ value ∈ solution, ∃ pointer, f.inst user = .store value pointer
          | .load pointer => pointer.isGroupVariable = true ∨ pointer ∈ solution
          | .phi _ => False
          | inst => ∀ operand ∈ inst.operands, operand ∈ solution

def Solves (f : Function) (stored : Cache) (solution : Set Value) : Prop :=
  ∀ value, value ∈ solution ↔ Equation f stored solution value

section Systems

variable {f : Function} {stored cache : Cache}

def userItem (f : Function) (user : InstId) : List (Option Value) :=
  match f.inst user with
  | .store value _ => [some value]
  | .load _ => []
  | _ => [none]

def items (f : Function) : Value → List (Option Value)
  | .argument _ => []
  | .constantInt _ => []
  | .global _ => [none]
  | .other _ => [none]
  | .block id => if id = f.entry then [] else [none]
  | .inst i =>
      match f.inst i with
      | .alloca _ => (f.users i).flatMap (userItem f)
      | .load pointer => if pointer.isGroupVariable then [] else [some pointer]
      | .phi _ => [none]
      | inst => inst.operands.map some

def isAllocaValue (f : Function) : Value → Bool
  | .inst i => (f.inst i).isAlloca
  | _ => false

def system (f : Function) (stored : Cache) : ConjunctiveSystem Value where
  items value :=
    match stored value with
    | some true => []
    | some false => [none]
    | none => items f value
  assumable := isAllocaValue f

theorem follows_userItem {solution : Set Value} {user : InstId} :
    (∀ item ∈ userItem f user, ∃ value ∈ solution, item = some value) ↔
      (∃ pointer, f.inst user = .load pointer) ∨
        ∃ value ∈ solution, ∃ pointer, f.inst user = .store value pointer := by
  unfold userItem
  cases hinst : f.inst user <;> simp

theorem follows_iff {solution : Set Value} {value : Value} :
    (system f stored).Follows solution value ↔ Equation f stored solution value := by
  unfold ConjunctiveSystem.Follows Equation system
  dsimp only
  cases hstored : stored value with
  | some uniform => cases uniform <;> simp
  | none =>
      cases value with
      | argument index => simp [items]
      | constantInt z => simp [items]
      | global name => simp [items]
      | other id => simp [items]
      | block id => by_cases hid : id = f.entry <;> simp [items, hid]
      | inst i =>
          unfold items
          dsimp only
          cases hinst : f.inst i with
          | alloca arraySize =>
              simp only [List.mem_flatMap, forall_exists_index, and_imp]
              rw [forall_comm]
              refine forall_congr' fun user => ?_
              rw [forall_comm]
              refine forall_congr' fun huser => ?_
              exact follows_userItem
          | load pointer => by_cases hpointer : pointer.isGroupVariable <;> simp [hpointer]
          | store value pointer => simp [Inst.operands]
          | phi incoming => simp
          | operation operands => simp [Inst.operands]

theorem isGreatest_solves (f : Function) (stored : Cache) :
    IsGreatest {solution | Solves f stored solution} (system f stored).greatest := by
  have hsolves : {solution | Solves f stored solution} =
      {solution | ∀ value, value ∈ solution ↔
        (system f stored).Follows solution value} := by
    ext solution
    exact forall_congr' fun value => iff_congr Iff.rfl follows_iff.symm
  rw [hsolves]
  exact ConjunctiveSystem.isGreatest_greatest

end Systems

section Searches

open ConjunctiveSystem (scan search searchAll Caches search_caches)

variable {f : Function} {stored cache : Cache}
  {query : Value → Cache → Option (Bool × Cache)}

theorem scanOperands_eq_scan (operands : List Value) (cache : Cache) :
    scanOperands query operands cache = scan query (operands.map some) cache := by
  induction operands generalizing cache with
  | nil => rfl
  | cons operand operands ih =>
      unfold scanOperands
      rw [List.map_cons, scan]
      cases hquery : query operand cache with
      | none => rfl
      | some answer =>
          obtain ⟨uniform, next⟩ := answer
          cases uniform with
          | false => rfl
          | true => exact ih next

theorem scanUsers_eq_scan (users : List InstId) (cache : Cache) :
    scanUsers query f users cache = scan query (users.flatMap (userItem f)) cache := by
  induction users generalizing cache with
  | nil => rfl
  | cons user users ih =>
      unfold scanUsers
      rw [List.flatMap_cons, userItem]
      cases hinst : f.inst user with
      | store value pointer =>
          dsimp only
          rw [List.singleton_append, scan]
          cases hquery : query value cache with
          | none => rfl
          | some answer =>
              obtain ⟨uniform, next⟩ := answer
              cases uniform with
              | false => rfl
              | true => exact ih next
      | load pointer => exact ih cache
      | alloca arraySize => rfl
      | phi incoming => rfl
      | operation operands => rfl

theorem assumable_inst (f : Function) (stored : Cache) (i : InstId) :
    (system f stored).assumable (.inst i) = (f.inst i).isAlloca :=
  rfl

theorem isUniform_eq_search (fuel : ℕ) (value : Value) (cache : Cache)
    (hcache : Caches stored cache) :
    isUniform f fuel value cache = (system f stored).search fuel value cache := by
  induction fuel generalizing value cache with
  | zero => rfl
  | succ fuel ih =>
      have hscan : ∀ (items : List (Option Value)) (cache : Cache), Caches stored cache →
          scan (isUniform f fuel) items cache =
            scan ((system f stored).search fuel) items cache :=
        fun items cache hcache => ConjunctiveSystem.scan_congr (search_caches fuel) ih
          items cache hcache
      unfold isUniform search
      cases hcached : cache value with
      | some uniform => rfl
      | none =>
          -- A result stored beforehand would be in the cache.
          have hstored : stored value = none := by
            by_contra hsome
            exact hcache value hsome hcached
          have hitems : (system f stored).items value = items f value := by
            simp [system, hstored]
          rw [hitems]
          cases value with
          | argument index => rfl
          | constantInt z => rfl
          | global name => rfl
          | other id => rfl
          | block id =>
              by_cases hid : id = f.entry
              · simp [hid, items, system, isAllocaValue, scan, setUniform]
              · simp [hid, items, system, isAllocaValue, scan, setUniform]
          | inst i =>
              dsimp only [items]
              cases hinst : f.inst i with
              | alloca arraySize =>
                  have hassumable : (system f stored).assumable (.inst i) = true := by
                    rw [assumable_inst, hinst]
                    rfl
                  have hassumed : Caches stored (setUniform cache (.inst i) true) :=
                    fun v hv => ConjunctiveSystem.update_caches _ _ _ v (hcache v hv)
                  dsimp only
                  rw [if_pos hassumable, scanUsers_eq_scan, hscan _ _ hassumed]
                  rfl
              | load pointer =>
                  have hassumable : ¬ (system f stored).assumable (.inst i) = true := by
                    rw [assumable_inst, hinst]
                    exact Bool.false_ne_true
                  dsimp only
                  rw [if_neg hassumable]
                  by_cases hpointer : pointer.isGroupVariable = true
                  · rw [if_pos hpointer, if_pos hpointer]
                    rfl
                  · rw [if_neg hpointer, if_neg hpointer, scanOperands_eq_scan,
                      hscan _ _ hcache]
                    rfl
              | phi incoming =>
                  have hassumable : ¬ (system f stored).assumable (.inst i) = true := by
                    rw [assumable_inst, hinst]
                    exact Bool.false_ne_true
                  rw [if_neg hassumable]
                  rfl
              | store value pointer =>
                  have hassumable : ¬ (system f stored).assumable (.inst i) = true := by
                    rw [assumable_inst, hinst]
                    exact Bool.false_ne_true
                  dsimp only
                  rw [if_neg hassumable, scanOperands_eq_scan, hscan _ _ hcache]
                  rfl
              | operation operands =>
                  have hassumable : ¬ (system f stored).assumable (.inst i) = true := by
                    rw [assumable_inst, hinst]
                    exact Bool.false_ne_true
                  dsimp only
                  rw [if_neg hassumable, scanOperands_eq_scan, hscan _ _ hcache]
                  rfl

theorem queryAll_eq_searchAll (fuel : ℕ) (values : List Value) (cache : Cache)
    (hcache : Caches stored cache) :
    queryAll f fuel values cache = (system f stored).searchAll fuel values cache := by
  induction values generalizing cache with
  | nil => rfl
  | cons value values ih =>
      rw [queryAll, searchAll, isUniform_eq_search fuel value cache hcache]
      cases hsearch : (system f stored).search fuel value cache with
      | none => rfl
      | some answer =>
          obtain ⟨uniform, next⟩ := answer
          have hnext : Caches stored next := fun v hv =>
            search_caches fuel value cache next uniform hsearch v (hcache v hv)
          simp only [Option.bind_eq_bind, Option.bind_some]
          rw [ih next hnext]

end Searches

section Dominance

variable {f : Function}

/-- An instruction comes before another one: earlier in its block, or in a block that
dominates the block of the other one. -/
def Function.Before (f : Function) (first second : InstId) : Prop :=
  if f.parent first = f.parent second then
    (f.body (f.parent second)).idxOf first < (f.body (f.parent second)).idxOf second
  else f.graph.Dominates (f.parent first) (f.parent second)

/-- Every definition dominates its uses in blocks that can be reached.  A PHI node uses
its values at the ends of the blocks it names. -/
structure SsaForm (f : Function) : Prop where
  operands_mem : ∀ i ∈ f.insts, ∀ j, .inst j ∈ (f.inst i).operands → j ∈ f.insts
  before : ∀ i ∈ f.insts, f.graph.Reachable (f.parent i) → (f.inst i).isPhi = false →
    ∀ j, .inst j ∈ (f.inst i).operands → f.Before j i
  dominates : ∀ i ∈ f.insts, ∀ incoming, f.inst i = .phi incoming →
    ∀ j block, (.inst j, block) ∈ incoming → f.graph.Dominates (f.parent j) block

/-- A query for the first instruction may go on to the second one. -/
def Uses (f : Function) (i j : InstId) : Prop :=
  i ∈ f.insts ∧ (f.inst i).isPhi = false ∧ (f.inst i).isAlloca = false ∧
    .inst j ∈ (f.inst i).operands

def DeadUses (f : Function) (i j : InstId) : Prop :=
  Uses f i j ∧ ¬ f.graph.Reachable (f.parent i)

/-- In blocks that cannot be reached no instruction depends on itself. -/
def DeadAcyclic (f : Function) : Prop :=
  Acyclic (DeadUses f)

theorem Function.before_of_idxOf_lt {i j : InstId} (hparent : f.parent i = f.parent j)
    (hlt : (f.body (f.parent j)).idxOf i < (f.body (f.parent j)).idxOf j) :
    f.Before i j := by
  unfold Function.Before
  rwa [if_pos hparent]

theorem Function.Before.trans {i j k : InstId} (hij : f.Before i j) (hjk : f.Before j k)
    (hreach : f.graph.Reachable (f.parent k)) : f.Before i k := by
  unfold Function.Before at hij hjk ⊢
  by_cases hfirst : f.parent i = f.parent j
  · rw [if_pos hfirst] at hij
    rw [hfirst]
    by_cases hsecond : f.parent j = f.parent k
    · rw [if_pos hsecond] at hjk ⊢
      rw [hsecond] at hij
      exact hij.trans hjk
    · rw [if_neg hsecond] at hjk ⊢
      exact hjk
  · rw [if_neg hfirst] at hij
    by_cases hsecond : f.parent j = f.parent k
    · rw [hsecond] at hij hfirst
      rw [if_neg hfirst]
      exact hij
    · rw [if_neg hsecond] at hjk
      have hdom := hij.trans hjk
      -- Two blocks that dominate each other are the same.
      have hne : f.parent i ≠ f.parent k := by
        intro heq
        rw [heq] at hij
        exact hsecond (hjk.antisymm hij (hjk.reachable hreach))
      rw [if_neg hne]
      exact hdom

theorem Function.Before.irrefl (i : InstId) : ¬ f.Before i i := by
  unfold Function.Before
  rw [if_pos rfl]
  exact lt_irrefl _

theorem Function.Before.reachable {i j : InstId} (hij : f.Before i j)
    (hreach : f.graph.Reachable (f.parent j)) : f.graph.Reachable (f.parent i) := by
  unfold Function.Before at hij
  by_cases heq : f.parent i = f.parent j
  · rwa [heq]
  · rw [if_neg heq] at hij
    exact hij.reachable hreach

namespace SsaForm

open Relation

variable (hssa : SsaForm f)

include hssa

theorem uses_before {i j : InstId} (huses : Uses f i j)
    (hreach : f.graph.Reachable (f.parent i)) : f.Before j i :=
  hssa.before i huses.1 hreach huses.2.1 j huses.2.2.2

theorem transGen_before {i j : InstId} (hpath : TransGen (Uses f) i j)
    (hreach : f.graph.Reachable (f.parent i)) : f.Before j i := by
  induction hpath with
  | single huses => exact hssa.uses_before huses hreach
  | tail _ huses ih =>
      exact (hssa.uses_before huses (ih.reachable hreach)).trans ih hreach

/-- A path of uses stays in the blocks that cannot be reached, or ends outside them. -/
theorem transGen_dead {i j : InstId} (hpath : TransGen (Uses f) i j) :
    f.graph.Reachable (f.parent j) ∨ TransGen (DeadUses f) i j := by
  have hstep : ∀ i j, Uses f i j → f.graph.Reachable (f.parent j) ∨ DeadUses f i j := by
    intro i j huses
    by_cases hreach : f.graph.Reachable (f.parent i)
    · exact Or.inl ((hssa.uses_before huses hreach).reachable hreach)
    · exact Or.inr ⟨huses, hreach⟩
  induction hpath with
  | single huses => exact (hstep _ _ huses).imp_right TransGen.single
  | tail _ huses ih =>
      obtain hreach | hdead := ih
      · exact Or.inl ((hssa.uses_before huses hreach).reachable hreach)
      · exact (hstep _ _ huses).imp_right hdead.tail

theorem acyclic (hdead : DeadAcyclic f) : Acyclic (Uses f) := by
  intro i hcycle
  obtain hreach | hpath := hssa.transGen_dead hcycle
  · exact Function.Before.irrefl i (hssa.transGen_before hcycle hreach)
  · exact hdead i hpath

end SsaForm

end Dominance

section Answers

open ConjunctiveSystem (Ranked Sound Caches)

variable {f : Function} {stored : Cache}

noncomputable def queryRank (f : Function) : Value → ℕ
  | .inst i => rank (Uses f) f.insts.toFinset i + 1
  | _ => 0

def allocas (f : Function) : Finset Value :=
  ((f.insts.filter fun i => (f.inst i).isAlloca).map Value.inst).toFinset

theorem items_subset {value : Value} {item : Option Value}
    (hitem : item ∈ (system f stored).items value) (hsome : item ≠ none) :
    item ∈ items f value := by
  unfold system at hitem
  dsimp only at hitem
  split at hitem
  · cases hitem
  · rw [List.mem_singleton] at hitem
    exact absurd hitem hsome
  · exact hitem

/-- What a query for a value that is not an alloca goes on to. -/
theorem uses_of_mem_items {value operand : Value} (hmem : f.Mem value)
    (halloca : isAllocaValue f value = false) (hitem : some operand ∈ items f value) :
    ∃ i, value = .inst i ∧ i ∈ f.insts ∧ (f.inst i).isPhi = false ∧
      (f.inst i).isAlloca = false ∧ operand ∈ (f.inst i).operands := by
  cases value with
  | argument index => cases hitem
  | constantInt z => cases hitem
  | global name => simp [items] at hitem
  | other id => simp [items] at hitem
  | block id =>
      unfold items at hitem
      dsimp only at hitem
      split at hitem <;> simp at hitem
  | inst i =>
      refine ⟨i, rfl, hmem, ?_⟩
      unfold isAllocaValue at halloca
      unfold items at hitem
      dsimp only at hitem halloca
      cases hinst : f.inst i with
      | alloca arraySize => simp [hinst, Inst.isAlloca] at halloca
      | load pointer =>
          rw [hinst] at hitem
          dsimp only at hitem
          split at hitem
          · cases hitem
          · simpa [Inst.isPhi, Inst.isAlloca, Inst.operands] using hitem
      | phi incoming => simp [hinst] at hitem
      | store value pointer =>
          simpa [hinst, Inst.isPhi, Inst.isAlloca, Inst.operands] using hitem
      | operation operands =>
          simpa [hinst, Inst.isPhi, Inst.isAlloca, Inst.operands] using hitem

theorem store_of_mem_items {a : InstId} {operand : Value}
    (halloca : (f.inst a).isAlloca = true) (hitem : some operand ∈ items f (.inst a)) :
    ∃ user ∈ f.insts, operand ∈ (f.inst user).operands := by
  unfold items at hitem
  dsimp only at hitem
  cases hinst : f.inst a with
  | alloca arraySize =>
      rw [hinst] at hitem
      obtain ⟨user, huser, hoperand⟩ := List.mem_flatMap.mp hitem
      refine ⟨user, ((f.mem_users a user).mp huser).1, ?_⟩
      unfold userItem at hoperand
      cases huse : f.inst user with
      | store value pointer =>
          rw [huse, List.mem_singleton, Option.some.injEq] at hoperand
          rw [hoperand]
          exact List.mem_cons_self
      | load pointer => simp [huse] at hoperand
      | alloca arraySize => simp [huse] at hoperand
      | phi incoming => simp [huse] at hoperand
      | operation operands => simp [huse] at hoperand
  | load pointer => simp [hinst, Inst.isAlloca] at halloca
  | store value pointer => simp [hinst, Inst.isAlloca] at halloca
  | phi incoming => simp [hinst, Inst.isAlloca] at halloca
  | operation operands => simp [hinst, Inst.isAlloca] at halloca

theorem SsaForm.mem_items (hssa : SsaForm f) {value operand : Value} (hmem : f.Mem value)
    (hitem : some operand ∈ items f value) : f.Mem operand := by
  have hoperand : ∃ i ∈ f.insts, operand ∈ (f.inst i).operands := by
    cases halloca : isAllocaValue f value with
    | true =>
        cases value with
        | inst a => exact store_of_mem_items halloca hitem
        | argument index => cases hitem
        | constantInt z => cases hitem
        | global name => cases halloca
        | other id => cases halloca
        | block id => cases halloca
    | false =>
        obtain ⟨i, _, hi, _, _, huse⟩ := uses_of_mem_items hmem halloca hitem
        exact ⟨i, hi, huse⟩
  obtain ⟨i, hi, huse⟩ := hoperand
  cases operand with
  | inst j => exact hssa.operands_mem i hi j huse
  | argument index => trivial
  | constantInt z => trivial
  | global name => trivial
  | other id => trivial
  | block id => trivial

theorem SsaForm.ranked (hssa : SsaForm f) (hdead : DeadAcyclic f) (stored : Cache) :
    Ranked (system f stored) {value | f.Mem value} (allocas f) (queryRank f)
      (f.insts.toFinset.card + 1) := by
  constructor
  · intro value hmem operand hitem
    exact hssa.mem_items hmem (items_subset hitem (Option.some_ne_none _))
  · intro value hmem halloca
    cases value with
    | inst i =>
        refine List.mem_toFinset.mpr (List.mem_map_of_mem ?_)
        exact List.mem_filter.mpr ⟨hmem, halloca⟩
    | argument index => cases halloca
    | constantInt z => cases halloca
    | global name => cases halloca
    | other id => cases halloca
    | block id => cases halloca
  · intro value hmem halloca operand hitem _
    have hoperand := items_subset hitem (Option.some_ne_none _)
    obtain ⟨i, rfl, hi, hphi, hinst, huse⟩ := uses_of_mem_items hmem halloca hoperand
    cases operand with
    | inst j =>
        have hj : j ∈ f.insts.toFinset :=
          List.mem_toFinset.mpr (hssa.operands_mem i hi j huse)
        exact Nat.succ_lt_succ ((hssa.acyclic hdead).rank_lt hj ⟨hi, hphi, hinst, huse⟩)
    | argument index => exact Nat.succ_pos _
    | constantInt z => exact Nat.succ_pos _
    | global name => exact Nat.succ_pos _
    | other id => exact Nat.succ_pos _
    | block id => exact Nat.succ_pos _
  · intro value hmem
    cases value with
    | inst i =>
        have hi : i ∈ f.insts.toFinset := List.mem_toFinset.mpr hmem
        exact Nat.succ_le_succ ((hssa.acyclic hdead).rank_lt_card hi).le
    | argument index => exact Nat.zero_le _
    | constantInt z => exact Nat.zero_le _
    | global name => exact Nat.zero_le _
    | other id => exact Nat.zero_le _
    | block id => exact Nat.zero_le _

theorem sound_stored (f : Function) (stored : Cache) : Sound (system f stored) ∅ stored := by
  constructor
  · intro value hvalue
    right
    unfold ConjunctiveSystem.Follows system
    simp [hvalue]
  · intro value hvalue hmem
    obtain ⟨w, _, hw⟩ := ConjunctiveSystem.mem_greatest.mp hmem none
      (by simp [system, hvalue])
    cases hw

open Classical in
/-- Any sequence of queries returns, and its results are those of the greatest solution,
whichever results it finds in the cache. -/
theorem queryAll_greatest (f : Function) (hssa : SsaForm f) (hdead : DeadAcyclic f)
    (stored : Cache) :
    ∃ solution, IsGreatest {solution | Solves f stored solution} solution ∧
      ∃ depth, ∀ fuel ≥ depth, ∀ values : List Value, (∀ value ∈ values, f.Mem value) →
        ∃ next, queryAll f fuel values stored =
            some (values.map fun value => decide (value ∈ solution), next) ∧
          ∀ value uniform, next value = some uniform →
            (uniform = true ↔ value ∈ solution) := by
  let bound := f.insts.toFinset.card + 1
  refine ⟨(system f stored).greatest, isGreatest_solves f stored,
    (allocas f).card * (bound + 2) + bound + 2, fun fuel hfuel values hvalues => ?_⟩
  have hlt : (allocas f).card * (bound + 2) + bound + 1 < fuel := by omega
  obtain ⟨next, hsearch, hnext⟩ := ConjunctiveSystem.searchAll_greatest
    (hssa.ranked hdead stored) hlt values hvalues stored (sound_stored f stored)
  refine ⟨next, ?_, fun value uniform hvalue => hnext.mem_greatest_iff hvalue⟩
  rw [queryAll_eq_searchAll fuel values stored fun _ hv => hv]
  exact hsearch

end Answers

section Examples

def counterInst : InstId → Inst
  | 0 => .alloca (.constantInt 1)
  | 1 => .load (.inst 0)
  | 2 => .operation [.inst 1, .argument 0]
  | 3 => .store (.inst 2) (.inst 0)
  | _ => .operation []

/-- A variable that is increased by an argument. -/
def counter : Function where
  entry := 0
  blocks := [0]
  body block := if block = 0 then [0, 1, 2, 3, 4] else []
  inst := counterInst
  parent _ := 0
  users a := [0, 1, 2, 3, 4].filter fun i => .inst a ∈ (counterInst i).operands
  nodup_body block := by split <;> decide
  parent_eq block i hi := by
    split at hi
    next hblock => exact hblock.symm
    next => cases hi
  mem_users a i := by simp

theorem counter_ssaForm : SsaForm counter := by
  have hinsts : ∀ i ∈ counter.insts, i = 0 ∨ i = 1 ∨ i = 2 ∨ i = 3 ∨ i = 4 := by
    decide
  constructor
  · intro i hi j hj
    obtain rfl | rfl | rfl | rfl | rfl := hinsts i hi
    all_goals simp [counter, counterInst, Inst.operands] at hj
    · exact hj ▸ by decide
    · exact hj ▸ by decide
    · obtain rfl | rfl := hj <;> decide
  · intro i hi _ _ j hj
    obtain rfl | rfl | rfl | rfl | rfl := hinsts i hi
    all_goals simp [counter, counterInst, Inst.operands] at hj
    · exact hj ▸ Function.before_of_idxOf_lt rfl (by decide)
    · exact hj ▸ Function.before_of_idxOf_lt rfl (by decide)
    · obtain rfl | rfl := hj <;> exact Function.before_of_idxOf_lt rfl (by decide)
  · intro i hi incoming hphi
    obtain rfl | rfl | rfl | rfl | rfl := hinsts i hi
    all_goals simp [counter, counterInst] at hphi

theorem counter_deadAcyclic : DeadAcyclic counter := by
  intro i hcycle
  obtain ⟨j, hdead, _⟩ := Relation.TransGen.head'_iff.mp hcycle
  exact hdead.2 Relation.ReflTransGen.refl

open Classical in
/-- The queries for the sum, the alloca and the argument, without earlier results. -/
theorem counter_queryAll :
    ∃ solution, IsGreatest {solution | Solves counter (fun _ => none) solution} solution ∧
      ∃ fuel next, queryAll counter fuel [.inst 2, .inst 0, .argument 0] (fun _ => none) =
        some ([decide (Value.inst 2 ∈ solution), decide (Value.inst 0 ∈ solution),
          decide (Value.argument 0 ∈ solution)], next) := by
  obtain ⟨solution, hgreatest, depth, hqueries⟩ :=
    queryAll_greatest counter counter_ssaForm counter_deadAcyclic fun _ => none
  have hvalues : ∀ value ∈ [Value.inst 2, .inst 0, .argument 0], counter.Mem value := by
    simp [Function.Mem, Function.insts, counter]
  obtain ⟨next, hnext, _⟩ := hqueries depth (le_refl _) _ hvalues
  exact ⟨solution, hgreatest, depth, next, hnext⟩

def deadCycleInst : InstId → Inst
  | 1 => .operation [.inst 3]
  | 2 => .operation [.block 2]
  | 3 => .operation [.inst 1]
  | 4 => .operation [.block 1]
  | _ => .operation []

/-- Two blocks that only lead to each other, with an instruction each that uses the one
of the other block. -/
def deadCycle : Function where
  entry := 0
  blocks := [0, 1, 2]
  body
    | 0 => [0]
    | 1 => [1, 2]
    | 2 => [3, 4]
    | _ => []
  inst := deadCycleInst
  parent
    | 0 => 0
    | 1 | 2 => 1
    | 3 | 4 => 2
    | _ => 3
  users a := [0, 1, 2, 3, 4].filter fun i => .inst a ∈ (deadCycleInst i).operands
  nodup_body block := by split <;> decide
  parent_eq block i hi := by
    split at hi
    · obtain rfl : i = 0 := List.mem_singleton.mp hi
      rfl
    · obtain rfl | rfl : i = 1 ∨ i = 2 := by simpa using hi
      · rfl
      · rfl
    · obtain rfl | rfl : i = 3 ∨ i = 4 := by simpa using hi
      · rfl
      · rfl
    · cases hi
  mem_users a i := by simp

theorem deadCycle_reachable {block : BlockId} (hreach : deadCycle.graph.Reachable block) :
    block = 0 := by
  induction hreach with
  | refl => rfl
  | tail _ hedge ih =>
      rw [ih] at hedge
      cases hedge

theorem deadCycle_ssaForm : SsaForm deadCycle := by
  have hinsts : ∀ i ∈ deadCycle.insts, i = 0 ∨ i = 1 ∨ i = 2 ∨ i = 3 ∨ i = 4 := by
    decide
  constructor
  · intro i hi j hj
    obtain rfl | rfl | rfl | rfl | rfl := hinsts i hi
    all_goals simp [deadCycle, deadCycleInst, Inst.operands] at hj
    · exact hj ▸ by decide
    · exact hj ▸ by decide
  · intro i hi hreach _ j hj
    have hparent := deadCycle_reachable hreach
    obtain rfl | rfl | rfl | rfl | rfl := hinsts i hi
    · cases hj
    all_goals cases hparent
  · intro i hi incoming hphi
    obtain rfl | rfl | rfl | rfl | rfl := hinsts i hi
    all_goals simp [deadCycle, deadCycleInst] at hphi

/-- The queries of the two instructions wait for each other. -/
theorem deadCycle_isUniform :
    SsaForm deadCycle ∧ ∀ fuel, isUniform deadCycle fuel (.inst 1) (fun _ => none) = none := by
  refine ⟨deadCycle_ssaForm, fun fuel => ?_⟩
  have hboth : isUniform deadCycle fuel (.inst 1) (fun _ => none) = none ∧
      isUniform deadCycle fuel (.inst 3) (fun _ => none) = none := by
    induction fuel with
    | zero => exact ⟨rfl, rfl⟩
    | succ fuel ih =>
        constructor
        · change Option.map _ (scanOperands (isUniform deadCycle fuel) [.inst 3] _) = none
          rw [scanOperands, ih.2]
          rfl
        · change Option.map _ (scanOperands (isUniform deadCycle fuel) [.inst 1] _) = none
          rw [scanOperands, ih.1]
          rfl
  exact hboth.1

end Examples

end Pocl.UniformityQueries
