import Pocl.UniformityQueries

/-!
# Functions without PHI nodes in the equations of the analysis

The analysis of values is written down for functions whose terminators are not
instructions, and its equations for functions whose instructions are all of one kind.
On the values that both have, the queries are the same.
-/

namespace Pocl.UniformityQueries

open VariableUniformity (InstId)

def embed : VariableUniformity.Value → Value
  | .argument index => .argument index
  | .constantInt z => .constantInt z
  | .global name => .global name
  | .other id => .other id
  | .inst i => .inst i

theorem embed_injective : Function.Injective embed := by
  intro value other heq
  cases value <;> cases other <;> cases heq <;> rfl

/-- The instruction with its operands.  The analysis does not look at the size of an
alloca. -/
def embedInst (arraySize : Value) : VariableUniformity.Inst → Inst
  | .alloca => .alloca arraySize
  | .load pointer => .load (embed pointer)
  | .store value pointer => .store (embed value) (embed pointer)
  | .compute _ operands => .operation (operands.map embed)
  | .access _ operands => .operation (operands.map embed)

/-- The instructions with a value, and stores, are the same in both functions. -/
structure Embeds (f : VariableUniformity.Function) (g : Function) (shared : Set InstId) :
    Prop where
  inst : ∀ i ∈ shared, ∃ arraySize, g.inst i = embedInst arraySize (f.inst i)
  users : ∀ a ∈ shared, g.users a = f.users a
  operand : ∀ i ∈ shared, ∀ j, .inst j ∈ (f.inst i).operands → j ∈ shared
  user : ∀ a ∈ shared, ∀ i ∈ f.users a, i ∈ shared

/-- Both caches have the same results for the values of both functions. -/
def SameResults (cache : VariableUniformity.Cache) (cache' : Cache) : Prop :=
  ∀ value, cache' (embed value) = cache value

/-- The answers of a query are the same, and so are the results in the caches. -/
def SameAnswers (answer : Option (Bool × VariableUniformity.Cache))
    (answer' : Option (Bool × Cache)) : Prop :=
  Option.Rel (fun r r' => r'.1 = r.1 ∧ SameResults r.2 r'.2) answer answer'

section Queries

variable {f : VariableUniformity.Function} {g : Function} {shared : Set InstId}
  {cache : VariableUniformity.Cache} {cache' : Cache}

theorem SameResults.setUniform (hcaches : SameResults cache cache')
    (value : VariableUniformity.Value) (uniform : Bool) :
    SameResults (VariableUniformity.setUniform cache value uniform)
      (UniformityQueries.setUniform cache' (embed value) uniform) := by
  intro other
  unfold VariableUniformity.setUniform UniformityQueries.setUniform
  by_cases heq : other = value
  · rw [heq, Function.update_self, Function.update_self]
  · rw [Function.update_of_ne heq, Function.update_of_ne (embed_injective.ne heq), hcaches]

theorem SameResults.answer (hcaches : SameResults cache cache')
    (value : VariableUniformity.Value) (uniform : Bool) :
    SameAnswers (some (uniform, VariableUniformity.setUniform cache value uniform))
      (some (uniform, UniformityQueries.setUniform cache' (embed value) uniform)) :=
  Option.Rel.some ⟨rfl, hcaches.setUniform value uniform⟩

/-- The values that are no instructions, and the shared instructions. -/
def Shares (shared : Set InstId) (value : VariableUniformity.Value) : Prop :=
  ∀ i, value = .inst i → i ∈ shared

theorem Embeds.shares (hembeds : Embeds f g shared) {i : InstId} (hi : i ∈ shared)
    {operand : VariableUniformity.Value} (hoperand : operand ∈ (f.inst i).operands) :
    Shares shared operand :=
  fun j hj => hembeds.operand i hi j (hj ▸ hoperand)

variable {query : VariableUniformity.Value → VariableUniformity.Cache →
    Option (Bool × VariableUniformity.Cache)}
  {query' : Value → Cache → Option (Bool × Cache)}

/-- Queries with the same answers for the shared values. -/
def SameQueries (shared : Set InstId)
    (query : VariableUniformity.Value → VariableUniformity.Cache →
      Option (Bool × VariableUniformity.Cache))
    (query' : Value → Cache → Option (Bool × Cache)) : Prop :=
  ∀ value cache cache', Shares shared value → SameResults cache cache' →
    SameAnswers (query value cache) (query' (embed value) cache')

theorem SameQueries.scan (hqueries : SameQueries shared query query')
    (values : List VariableUniformity.Value) (hvalues : ∀ value ∈ values, Shares shared value)
    (hcaches : SameResults cache cache') :
    SameAnswers (VariableUniformity.scan query values cache)
      (scanOperands query' (values.map embed) cache') := by
  induction values generalizing cache cache' with
  | nil => exact Option.Rel.some ⟨rfl, hcaches⟩
  | cons value values ih =>
      have hanswer := hqueries value cache cache' (hvalues value List.mem_cons_self) hcaches
      unfold VariableUniformity.scan
      rw [List.map_cons, scanOperands]
      revert hanswer
      generalize query value cache = answer
      generalize query' (embed value) cache' = answer'
      rintro (hrel | _)
      · rename_i r r'
        obtain ⟨uniform, next⟩ := r
        obtain ⟨uniform', next'⟩ := r'
        obtain ⟨rfl, hnext⟩ := hrel
        cases uniform' with
        | false => exact Option.Rel.some ⟨rfl, hnext⟩
        | true => exact ih (fun other hother => hvalues other (List.mem_cons_of_mem _ hother)) hnext
      · exact Option.Rel.none

theorem SameQueries.scanUsers (hqueries : SameQueries shared query query')
    (hembeds : Embeds f g shared) (users : List InstId) (husers : ∀ i ∈ users, i ∈ shared)
    (hcaches : SameResults cache cache') :
    SameAnswers (VariableUniformity.scanUsers query f users cache)
      (scanUsers query' g users cache') := by
  induction users generalizing cache cache' with
  | nil => exact Option.Rel.some ⟨rfl, hcaches⟩
  | cons user users ih =>
      have huser := husers user List.mem_cons_self
      have hrest : ∀ i ∈ users, i ∈ shared := fun i hi => husers i (List.mem_cons_of_mem _ hi)
      obtain ⟨arraySize, hinst'⟩ := hembeds.inst user huser
      unfold VariableUniformity.scanUsers UniformityQueries.scanUsers
      cases hinst : f.inst user with
      | store value pointer =>
          rw [hinst', hinst]
          have hshares : Shares shared value :=
            hembeds.shares huser (by simp [hinst, VariableUniformity.Inst.operands])
          have hanswer := hqueries value cache cache' hshares hcaches
          dsimp only [embedInst]
          revert hanswer
          generalize query value cache = answer
          generalize query' (embed value) cache' = answer'
          rintro (hrel | _)
          · rename_i r r'
            obtain ⟨uniform, next⟩ := r
            obtain ⟨uniform', next'⟩ := r'
            obtain ⟨rfl, hnext⟩ := hrel
            cases uniform' with
            | false => exact Option.Rel.some ⟨rfl, hnext⟩
            | true => exact ih hrest hnext
          · exact Option.Rel.none
      | load pointer =>
          rw [hinst', hinst]
          exact ih hrest hcaches
      | alloca =>
          rw [hinst', hinst]
          exact Option.Rel.some ⟨rfl, hcaches⟩
      | compute opcode operands =>
          rw [hinst', hinst]
          exact Option.Rel.some ⟨rfl, hcaches⟩
      | access opcode operands =>
          rw [hinst', hinst]
          exact Option.Rel.some ⟨rfl, hcaches⟩

theorem isGroupVariable_embed (value : VariableUniformity.Value) :
    (embed value).isGroupVariable = value.isGroupVariable := by
  cases value <;> rfl

/-- The result for an instruction that is scanned is that of its operands. -/
theorem SameQueries.scanned (hqueries : SameQueries shared query query') {i : InstId}
    (hembeds : Embeds f g shared) (hi : i ∈ shared) (hcaches : SameResults cache cache') :
    SameAnswers (VariableUniformity.scanOperands query f i cache)
      ((scanOperands query' ((f.inst i).operands.map embed) cache').map
        fun (uniform, next) => (uniform, setUniform next (.inst i) uniform)) := by
  have hscan := hqueries.scan (f.inst i).operands
    (fun operand hoperand => hembeds.shares hi hoperand) hcaches
  unfold VariableUniformity.scanOperands
  revert hscan
  generalize VariableUniformity.scan query (f.inst i).operands cache = answer
  generalize scanOperands query' ((f.inst i).operands.map embed) cache' = answer'
  rintro (hrel | _)
  · rename_i r r'
    obtain ⟨uniform, next⟩ := r
    obtain ⟨uniform', next'⟩ := r'
    obtain ⟨rfl, hnext⟩ := hrel
    exact hnext.answer (.inst i) uniform'
  · exact Option.Rel.none

/-- On the shared values both models of the analysis give the same answers. -/
theorem isUniform_embed (hembeds : Embeds f g shared) (fuel : ℕ) :
    SameQueries shared (VariableUniformity.isUniform f fuel) (isUniform g fuel) := by
  induction fuel with
  | zero => exact fun _ _ _ _ _ => Option.Rel.none
  | succ fuel ih =>
      intro value cache cache' hvalue hcaches
      unfold VariableUniformity.isUniform isUniform
      rw [hcaches value]
      cases hcached : cache value with
      | some uniform => exact Option.Rel.some ⟨rfl, hcaches⟩
      | none =>
          cases value with
          | argument index => exact hcaches.answer (.argument index) true
          | constantInt z => exact hcaches.answer (.constantInt z) true
          | global name => exact hcaches.answer (.global name) false
          | other id => exact hcaches.answer (.other id) false
          | inst i =>
              have hi := hvalue i rfl
              obtain ⟨arraySize, hinst'⟩ := hembeds.inst i hi
              have hscanned := ih.scanned hembeds hi hcaches
              dsimp only [embed]
              rw [hinst']
              cases hinst : f.inst i with
              | alloca =>
                  have hscan := ih.scanUsers hembeds (f.users i) (hembeds.user i hi)
                    (hcaches.setUniform (.inst i) true)
                  dsimp only [embedInst]
                  rw [hembeds.users i hi]
                  revert hscan
                  generalize VariableUniformity.scanUsers _ f (f.users i) _ = answer
                  dsimp only [embed]
                  generalize scanUsers _ g (f.users i) _ = answer'
                  rintro (hrel | _)
                  · rename_i r r'
                    obtain ⟨uniform, next⟩ := r
                    obtain ⟨uniform', next'⟩ := r'
                    obtain ⟨rfl, hnext⟩ := hrel
                    cases uniform' with
                    | false => exact hcaches.answer (.inst i) false
                    | true => exact hnext.answer (.inst i) true
                  · exact Option.Rel.none
              | load pointer =>
                  rw [hinst] at hscanned
                  dsimp only [embedInst]
                  rw [isGroupVariable_embed]
                  split
                  · exact hcaches.answer (.inst i) true
                  · exact hscanned
              | store value pointer =>
                  rw [hinst] at hscanned
                  exact hscanned
              | compute opcode operands =>
                  rw [hinst] at hscanned
                  exact hscanned
              | access opcode operands =>
                  rw [hinst] at hscanned
                  exact hscanned

end Queries

end Pocl.UniformityQueries
