import Pocl.WorkItemValues

/-!
# Symbolic values

A work-item can run with expressions instead of values.  What an instruction is computed
from on the way of the work-item then is its value, and every run with values is the
image of one with expressions.
-/

namespace Pocl.VariableUniformity

/-- What a value is computed from.  Operands are applied to an instruction one by one.
A read of memory that may change says for which work-item and when it is done. -/
inductive Expr
  | argument (index : ℕ)
  | constantInt (value : ℤ)
  | global (name : String)
  | other (id : ℕ)
  | groupVariable (name : String)
  | allocaAddress (a : InstId)
  | undefined
  | compute (opcode : ℕ)
  | read (i : InstId) (moment : Option (Bool × ℕ))
  | apply (function operand : Expr)
  deriving DecidableEq

namespace Expr

def applyAll (function : Expr) (operands : List Expr) : Expr :=
  operands.foldl apply function

/-- The expression without the moments of the reads. -/
def erase : Expr → Expr
  | .read i _ => .read i none
  | .apply function operand => .apply function.erase operand.erase
  | x => x

def reads : Expr → List (InstId × Option (Bool × ℕ))
  | .read i moment => [(i, moment)]
  | .apply function operand => function.reads ++ operand.reads
  | _ => []

/-- Whether no global variable and no function occurs in the expression. -/
def known : Expr → Bool
  | .global _ => false
  | .other _ => false
  | .apply function operand => function.known && operand.known
  | _ => true

theorem reads_applyAll (function : Expr) (operands : List Expr) :
    (function.applyAll operands).reads = function.reads ++ operands.flatMap reads := by
  induction operands generalizing function with
  | nil => simp [applyAll]
  | cons operand operands ih =>
      have hcons : function.applyAll (operand :: operands) =
          (function.apply operand).applyAll operands := rfl
      rw [hcons, ih]
      simp [reads]

theorem known_applyAll (function : Expr) (operands : List Expr) :
    (function.applyAll operands).known = (function.known && operands.all known) := by
  induction operands generalizing function with
  | nil => simp [applyAll]
  | cons operand operands ih =>
      have hcons : function.applyAll (operand :: operands) =
          (function.apply operand).applyAll operands := rfl
      rw [hcons, ih]
      simp [known, Bool.and_assoc]

theorem erase_eq_self {x : Expr} (hreads : ∀ read ∈ x.reads, read.2 = none) :
    x.erase = x := by
  induction x with
  | read i moment => rw [erase, show moment = none from hreads (i, moment) (by simp [reads])]
  | apply function operand ihfunction ihoperand =>
      rw [erase, ihfunction fun read hread => hreads read (List.mem_append_left _ hread),
        ihoperand fun read hread => hreads read (List.mem_append_right _ hread)]
  | _ => rfl

theorem map_reads_erase (x : Expr) : x.erase.reads.map Prod.fst = x.reads.map Prod.fst := by
  induction x with
  | apply function operand ihfunction ihoperand =>
      simp [erase, reads, ihfunction, ihoperand]
  | _ => rfl

end Expr

section Groups

/-- The group of expressions, given which of them are true or equal an integer. -/
def symbolicGroup (isTrue : Expr → Bool) (equals : Expr → ℤ → Bool) : WorkGroup Expr where
  argument := .argument
  constantInt := .constantInt
  globalAddress := .global
  other := .other
  groupVariable := .groupVariable
  allocaAddress := .allocaAddress
  undefined := .undefined
  compute opcode operands := (Expr.compute opcode).applyAll operands
  isTrue := isTrue
  equals := equals

/-- One of two work-items, given the instructions that read memory that does not
change. -/
def symbolicItem (stable : InstId → Bool) (second : Bool) : WorkItem Expr where
  outside clock i operands :=
    (Expr.read i (if stable i then none else some (second, clock))).applyAll operands

end Groups

section Interpretations

variable {W V : Type*} {f : Function} {source : WorkGroup W} {reader : WorkItem W}
  {group : WorkGroup V} {item : WorkItem V} {meaning : W → V}

/-- Values of one kind stand for values of another one. -/
structure Interprets (source : WorkGroup W) (reader : WorkItem W) (group : WorkGroup V)
    (item : WorkItem V) (meaning : W → V) : Prop where
  argument : ∀ index, meaning (source.argument index) = group.argument index
  constantInt : ∀ z, meaning (source.constantInt z) = group.constantInt z
  globalAddress : ∀ name, meaning (source.globalAddress name) = group.globalAddress name
  other : ∀ id, meaning (source.other id) = group.other id
  groupVariable : ∀ name, meaning (source.groupVariable name) = group.groupVariable name
  allocaAddress : ∀ a, meaning (source.allocaAddress a) = group.allocaAddress a
  undefined : meaning source.undefined = group.undefined
  compute : ∀ opcode operands,
    meaning (source.compute opcode operands) = group.compute opcode (operands.map meaning)
  isTrue : ∀ x, source.isTrue x = group.isTrue (meaning x)
  equals : ∀ x z, source.equals x z = group.equals (meaning x) z
  outside : ∀ clock i operands,
    meaning (reader.outside clock i operands) = item.outside clock i (operands.map meaning)

def Registers.map (meaning : W → V) (registers : Registers W) : Registers V :=
  ⟨meaning ∘ registers.env, meaning ∘ registers.slots, registers.clock⟩

def State.map (meaning : W → V) (state : State W) : State V :=
  ⟨state.block, state.registers.map meaning⟩

theorem Registers.map_assign (registers : Registers W) (i : InstId) (x : W) :
    (registers.assign i x).map meaning = (registers.map meaning).assign i (meaning x) := by
  simp [Registers.map, Registers.assign, Function.comp_update]

theorem Registers.map_setSlot (registers : Registers W) (a : InstId) (x : W) :
    (registers.setSlot a x).map meaning = (registers.map meaning).setSlot a (meaning x) := by
  simp [Registers.map, Registers.setSlot, Function.comp_update]

variable (hmeaning : Interprets source reader group item meaning)

include hmeaning

theorem Interprets.value (registers : Registers W) (value : Value) :
    meaning (source.value registers value) = group.value (registers.map meaning) value := by
  cases value with
  | argument index => exact hmeaning.argument index
  | constantInt z => exact hmeaning.constantInt z
  | global name => exact hmeaning.globalAddress name
  | other id => exact hmeaning.other id
  | inst i => rfl

theorem Interprets.values (registers : Registers W) (operands : List Value) :
    (operands.map (source.value registers)).map meaning =
      operands.map (group.value (registers.map meaning)) := by
  rw [List.map_map]
  exact List.map_congr_left fun operand _ => hmeaning.value registers operand

theorem Interprets.loaded (registers : Registers W) (i : InstId) (pointer : Value) :
    meaning (loaded f source reader i registers pointer) =
      loaded f group item i (registers.map meaning) pointer := by
  unfold VariableUniformity.loaded
  split
  · cases pointer with
    | inst a => rfl
    | global name => exact hmeaning.groupVariable name
    | argument index => exact hmeaning.undefined
    | constantInt z => exact hmeaning.undefined
    | other id => exact hmeaning.undefined
  · rw [hmeaning.outside, List.map_singleton, hmeaning.value]
    rfl

theorem Interprets.execute (registers : Registers W) (i : InstId) :
    (execute f source reader registers i).map meaning =
      execute f group item (registers.map meaning) i := by
  unfold VariableUniformity.execute
  cases f.inst i with
  | alloca =>
      dsimp only
      rw [Registers.map_assign, Registers.map_setSlot, hmeaning.undefined,
        hmeaning.allocaAddress]
  | load pointer =>
      dsimp only
      rw [Registers.map_assign, hmeaning.loaded]
  | store value pointer =>
      cases pointer with
      | inst a =>
          dsimp only
          rw [Registers.map_setSlot, hmeaning.value]
      | argument index => rfl
      | constantInt z => rfl
      | global name => rfl
      | other id => rfl
  | compute opcode operands =>
      dsimp only
      rw [Registers.map_assign, hmeaning.compute, hmeaning.values]
  | access opcode operands =>
      dsimp only
      rw [Registers.map_assign, hmeaning.outside, hmeaning.values]
      rfl

theorem Interprets.executeBlock (state : State W) :
    (executeBlock f source reader state).map meaning =
      executeBlock f group item (state.map meaning) := by
  have hbody : ∀ (body : List InstId) (registers : Registers W),
      (body.foldl (VariableUniformity.execute f source reader) registers).map meaning =
        body.foldl (VariableUniformity.execute f group item) (registers.map meaning) := by
    intro body
    induction body with
    | nil => exact fun _ => rfl
    | cons i body ih =>
        intro registers
        rw [List.foldl_cons, List.foldl_cons, ih, hmeaning.execute]
  exact hbody _ _

theorem Interprets.next (registers : Registers W) (term : Term) :
    term.next source registers = term.next group (registers.map meaning) := by
  cases term with
  | ret => rfl
  | br target => rfl
  | condBr condition first second =>
      simp only [Term.next, hmeaning.isTrue, hmeaning.value]
  | switch condition cases default =>
      simp only [Term.next, hmeaning.equals, hmeaning.value]

theorem Interprets.step (state : State W) :
    step f group item (state.map meaning) =
      (step f source reader state).map (State.map meaning) := by
  unfold VariableUniformity.step
  rw [← hmeaning.executeBlock, ← hmeaning.next, Option.map_map]
  rfl

theorem Interprets.initial : (State.initial f source).map meaning = State.initial f group := by
  simp [State.initial, State.map, Registers.map, Function.comp_def, hmeaning.undefined]

theorem Interprets.executions_map (v : InstId) (n : ℕ) (state : State W) :
    executions f group item v n (state.map meaning) =
      (executions f source reader v n state).map meaning := by
  induction n generalizing state with
  | zero => rfl
  | succ n ih =>
      unfold executions
      rw [List.map_append, hmeaning.step, ← hmeaning.executeBlock]
      congr 1
      · by_cases hv : v ∈ f.body state.block <;> simp [hv, State.map, Registers.map]
      · cases VariableUniformity.step f source reader state with
        | none => rfl
        | some next => exact ih next

/-- The values of an instruction are those that its expressions stand for. -/
theorem Interprets.executions_eq (v : InstId) (n : ℕ) :
    executions f group item v n (State.initial f group) =
      (executions f source reader v n (State.initial f source)).map meaning := by
  rw [← hmeaning.executions_map, hmeaning.initial]

end Interpretations

section Meanings

variable {V : Type*} (group : WorkGroup V) (first second : WorkItem V)

/-- What an expression stands for, given what is applied to it. -/
def Expr.meaning : Expr → List V → V
  | .argument index, _ => group.argument index
  | .constantInt z, _ => group.constantInt z
  | .global name, _ => group.globalAddress name
  | .other id, _ => group.other id
  | .groupVariable name, _ => group.groupVariable name
  | .allocaAddress a, _ => group.allocaAddress a
  | .undefined, _ => group.undefined
  | .compute opcode, operands => group.compute opcode operands
  | .read i none, operands => first.outside 0 i operands
  | .read i (some (false, clock)), operands => first.outside clock i operands
  | .read i (some (true, clock)), operands => second.outside clock i operands
  | .apply function operand, operands => function.meaning (operand.meaning [] :: operands)

def Expr.eval (x : Expr) : V :=
  x.meaning group first second []

theorem Expr.meaning_applyAll (function : Expr) (operands : List Expr) (rest : List V) :
    (function.applyAll operands).meaning group first second rest =
      function.meaning group first second
        (operands.map (Expr.eval group first second) ++ rest) := by
  induction operands generalizing function with
  | nil => rfl
  | cons operand operands ih => exact ih (function.apply operand)

theorem Expr.eval_applyAll (function : Expr) (operands : List Expr) :
    (function.applyAll operands).eval group first second =
      function.meaning group first second
        (operands.map (Expr.eval group first second)) := by
  rw [eval, meaning_applyAll, List.append_nil]

/-- The instructions get the same results for the same operands, whichever of the
work-items executes them, and whenever it does. -/
def StableReads (stable : InstId → Bool) (first second : WorkItem V) : Prop :=
  ∀ i, stable i = true →
    ∀ clock clock' values, first.outside clock i values = second.outside clock' i values

variable {group first second}

theorem interprets_symbolic {stable : InstId → Bool} (hstable : StableReads stable first second)
    (other : Bool) :
    Interprets
      (symbolicGroup (fun x => group.isTrue (x.eval group first second))
        fun x z => group.equals (x.eval group first second) z)
      (symbolicItem stable other) group (if other then second else first)
      (Expr.eval group first second) where
  argument _ := rfl
  constantInt _ := rfl
  globalAddress _ := rfl
  other _ := rfl
  groupVariable _ := rfl
  allocaAddress _ := rfl
  undefined := rfl
  compute opcode operands := Expr.eval_applyAll ..
  isTrue _ := rfl
  equals _ _ := rfl
  outside clock i operands := by
    refine (Expr.eval_applyAll ..).trans ?_
    cases hi : stable i with
    | true =>
        have hfirst := hstable i hi 0 0
        cases other with
        | false =>
            exact (hfirst _).trans (hstable i hi clock 0 _).symm
        | true => exact hstable i hi 0 clock _
    | false => cases other <;> rfl

end Meanings

section Invariants

variable {V : Type*} {f : Function} {group : WorkGroup V} {item : WorkItem V}
  {tracked : Value → Prop} {good : V → Prop}

/-- What the tracked values are computed from is tracked, too. -/
structure Tracks (f : Function) (tracked : Value → Prop) : Prop where
  operands : ∀ i, tracked (.inst i) →
    (∃ pointer, f.inst i = .load pointer ∧ pointer.isGroupVariable = true) ∨
      ∀ operand ∈ (f.inst i).operands, tracked operand
  stored : ∀ a i value, tracked (.inst a) → f.promotable a = true →
    f.inst i = .store value (.inst a) → tracked value

/-- The results of tracked instructions are good if their operands are. -/
structure KeepsGood (group : WorkGroup V) (item : WorkItem V) (tracked : Value → Prop)
    (good : V → Prop) : Prop where
  argument : ∀ index, good (group.argument index)
  constantInt : ∀ z, good (group.constantInt z)
  globalAddress : ∀ name, tracked (.global name) → good (group.globalAddress name)
  other : ∀ id, tracked (.other id) → good (group.other id)
  groupVariable : ∀ name, good (group.groupVariable name)
  allocaAddress : ∀ a, good (group.allocaAddress a)
  undefined : good group.undefined
  compute : ∀ opcode operands, (∀ x ∈ operands, good x) → good (group.compute opcode operands)
  outside : ∀ clock i operands, (∀ x ∈ operands, good x) → good (item.outside clock i operands)

structure Registers.Good (f : Function) (tracked : Value → Prop) (good : V → Prop)
    (registers : Registers V) : Prop where
  env : ∀ i, tracked (.inst i) → good (registers.env i)
  slots : ∀ a, tracked (.inst a) → f.promotable a = true → good (registers.slots a)

theorem Registers.Good.assign {registers : Registers V}
    (hregisters : registers.Good f tracked good) {i : InstId} {x : V}
    (hx : tracked (.inst i) → good x) : (registers.assign i x).Good f tracked good := by
  refine ⟨fun j hj => ?_, hregisters.slots⟩
  unfold Registers.assign
  by_cases hji : j = i
  · subst hji
    simpa using hx hj
  · simpa [Function.update_of_ne hji] using hregisters.env j hj

theorem Registers.Good.setSlot {registers : Registers V}
    (hregisters : registers.Good f tracked good) {a : InstId} {x : V}
    (hx : tracked (.inst a) → f.promotable a = true → good x) :
    (registers.setSlot a x).Good f tracked good := by
  refine ⟨hregisters.env, fun b hb hpromotable => ?_⟩
  unfold Registers.setSlot
  by_cases hba : b = a
  · subst hba
    simpa using hx hb hpromotable
  · simpa [Function.update_of_ne hba] using hregisters.slots b hb hpromotable

variable (htracks : Tracks f tracked) (hkeeps : KeepsGood group item tracked good)

include hkeeps

theorem KeepsGood.value {registers : Registers V} (hregisters : registers.Good f tracked good)
    {value : Value} (hvalue : tracked value) : good (group.value registers value) := by
  cases value with
  | argument index => exact hkeeps.argument index
  | constantInt z => exact hkeeps.constantInt z
  | global name => exact hkeeps.globalAddress name hvalue
  | other id => exact hkeeps.other id hvalue
  | inst i => exact hregisters.env i hvalue

theorem KeepsGood.values {registers : Registers V} (hregisters : registers.Good f tracked good)
    {operands : List Value} (hoperands : ∀ operand ∈ operands, tracked operand) :
    ∀ x ∈ operands.map (group.value registers), good x := by
  intro x hx
  obtain ⟨operand, hoperand, rfl⟩ := List.mem_map.mp hx
  exact hkeeps.value hregisters (hoperands operand hoperand)

include htracks

theorem KeepsGood.loaded {registers : Registers V} (hregisters : registers.Good f tracked good)
    {i : InstId} {pointer : Value} (hi : tracked (.inst i)) (hload : f.inst i = .load pointer) :
    good (loaded f group item i registers pointer) := by
  have hpointer : pointer.isGroupVariable = true ∨ tracked pointer := by
    obtain ⟨other, hother, hgroup⟩ | hoperands := htracks.operands i hi
    · rw [hload, Inst.load.injEq] at hother
      exact Or.inl (hother ▸ hgroup)
    · rw [hload] at hoperands
      exact Or.inr (hoperands pointer (List.mem_singleton_self _))
  unfold VariableUniformity.loaded
  split
  next hinside =>
    cases pointer with
    | inst a =>
        exact hregisters.slots a (hpointer.resolve_left nofun) hinside
    | global name => exact hkeeps.groupVariable name
    | argument index => exact hkeeps.undefined
    | constantInt z => exact hkeeps.undefined
    | other id => exact hkeeps.undefined
  next hinside =>
    refine hkeeps.outside _ _ _ fun x hx => ?_
    rw [List.mem_singleton.mp hx]
    refine hkeeps.value hregisters (hpointer.resolve_left fun hgroup => hinside ?_)
    cases pointer with
    | inst a => cases hgroup
    | global name => exact hgroup
    | argument index => cases hgroup
    | constantInt z => cases hgroup
    | other id => cases hgroup

theorem KeepsGood.execute {registers : Registers V} (hregisters : registers.Good f tracked good)
    (i : InstId) : (execute f group item registers i).Good f tracked good := by
  have hoperands : (∀ pointer, f.inst i ≠ .load pointer) → tracked (.inst i) →
      ∀ operand ∈ (f.inst i).operands, tracked operand := by
    intro hload hi
    exact (htracks.operands i hi).resolve_left fun ⟨pointer, hother, _⟩ => hload pointer hother
  unfold VariableUniformity.execute
  cases hinst : f.inst i with
  | alloca =>
      refine (hregisters.setSlot ?_).assign fun _ => hkeeps.allocaAddress i
      exact fun _ _ => hkeeps.undefined
  | load pointer => exact hregisters.assign fun hi => hkeeps.loaded htracks hregisters hi hinst
  | store value pointer =>
      cases pointer with
      | inst a =>
          refine hregisters.setSlot fun ha hpromotable => ?_
          exact hkeeps.value hregisters (htracks.stored a i value ha hpromotable hinst)
      | argument index => exact hregisters
      | constantInt z => exact hregisters
      | global name => exact hregisters
      | other id => exact hregisters
  | compute opcode operands =>
      rw [hinst] at hoperands
      refine hregisters.assign fun hi => hkeeps.compute _ _ ?_
      exact hkeeps.values hregisters (hoperands (fun _ => nofun) hi)
  | access opcode operands =>
      rw [hinst] at hoperands
      refine hregisters.assign fun hi => hkeeps.outside _ _ _ ?_
      exact hkeeps.values hregisters (hoperands (fun _ => nofun) hi)

theorem KeepsGood.executeBlock {state : State V}
    (hstate : state.registers.Good f tracked good) :
    (executeBlock f group item state).Good f tracked good := by
  have hbody : ∀ (body : List InstId) (registers : Registers V),
      registers.Good f tracked good →
        (body.foldl (VariableUniformity.execute f group item) registers).Good
          f tracked good := by
    intro body
    induction body with
    | nil => exact fun _ hregisters => hregisters
    | cons i body ih =>
        exact fun registers hregisters => ih _ (hkeeps.execute htracks hregisters i)
  exact hbody _ _ hstate

/-- All values of a tracked instruction are good. -/
theorem KeepsGood.executions {v : InstId} (hv : tracked (.inst v)) (n : ℕ) {x : V}
    (hx : x ∈ executions f group item v n (State.initial f group)) : good x := by
  have hrun : ∀ (n : ℕ) (state : State V), state.registers.Good f tracked good →
      ∀ x ∈ VariableUniformity.executions f group item v n state, good x := by
    intro n
    induction n with
    | zero => exact fun _ _ _ hx => absurd hx List.not_mem_nil
    | succ n ih =>
        intro state hstate x hx
        have hexecuted := hkeeps.executeBlock htracks hstate
        unfold VariableUniformity.executions at hx
        obtain hhere | hlater := List.mem_append.mp hx
        · split at hhere
          · rw [List.mem_singleton.mp hhere]
            exact hexecuted.env v hv
          · exact absurd hhere List.not_mem_nil
        · cases hstep : step f group item state with
          | none =>
              rw [hstep] at hlater
              exact absurd hlater List.not_mem_nil
          | some next =>
              rw [hstep] at hlater
              refine ih next ?_ x hlater
              obtain ⟨block, _, rfl⟩ := Option.map_eq_some_iff.mp hstep
              exact hexecuted
  exact hrun n _ ⟨fun _ _ => hkeeps.undefined, fun _ _ _ => hkeeps.undefined⟩ x hx

end Invariants

end Pocl.VariableUniformity
