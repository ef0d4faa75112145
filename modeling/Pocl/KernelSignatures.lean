import Pocl.PreprocessingTokens
import Pocl.TextSearches

/-!
# The signature of a kernel in its source

For a GPU device `clCreateKernel` finds the name of the kernel in the stored source, and takes
the arguments from the text between the name and the next brace: their number by its commas, and
what they are by the words that occur between the commas.

A source is the characters of a C string.  A search that finds nothing, a loop that leaves its
string, and a copy that does not fit its array have no defined result.
-/

namespace Pocl.KernelSignatures

open Pocl.CommentSyntax Pocl.PreprocessingTokens Pocl.TextSearches

inductive Failure
  | undefined
  | unfinished
  deriving DecidableEq

@[ext]
structure ArgInfo where
  arg_is_pointer : Bool
  arg_is_local : Bool
  arg_is_image : Bool
  arg_is_sampler : Bool
  arg_is_struct : Bool
  deriving DecidableEq

/-- The fields of a kernel that the scan assigns. -/
structure Kernel where
  num_args : ℕ
  args : List ArgInfo
  deriving DecidableEq

section Characters

def comma : UInt8 := 44

def openParenthesis : UInt8 := 40

def closeParenthesis : UInt8 := 41

def openBrace : UInt8 := 123

def kernelWord : Text := bytes ['k', 'e', 'r', 'n', 'e', 'l']

def voidWord : Text := bytes ['v', 'o', 'i', 'd']

def localWord : Text := bytes ['l', 'o', 'c', 'a', 'l']

def imageWord : Text := bytes ['i', 'm', 'a', 'g', 'e']

/-- The macro of image parameters in OpenCV. -/
def opencvImageWord : Text := bytes ['I', 'M', 'A', 'G', 'E']

def samplerWord : Text := bytes ['s', 'a', 'm', 'p', 'l', 'e', 'r', '_', 't']

def structWord : Text := bytes ['s', 't', 'r', 'u', 'c', 't']

/-- The characters at which the name of a kernel may end. -/
def isSeparator (character : UInt8) : Bool :=
  character = openParenthesis || character = newline || character = 9 || character = 32

end Characters

section Scan

def found (result : Option α) : Except Failure α :=
  match result with
  | some value => .ok value
  | none => .error .undefined

/-- The text behind the next occurrence of the name. -/
def nextName (name str : Text) : Option Text :=
  (strstr name str).map (List.drop name.length)

/-- The loop over the occurrences of the name that no separator follows.  Its comparison of `str`
with a literal never ends it. -/
def skipNames (name : Text) : ℕ → Text → Except Failure Text
  | 0, _ => .error .unfinished
  | fuel + 1, str =>
      if str.head?.any isSeparator then .ok str
      else do
        let str ← found (nextName name str)
        skipNames name fuel str

/-- The text up to the next brace. -/
def argumentText (str : Text) : Except Failure Text :=
  if openBrace ∈ str then .ok (str.takeWhile (· ≠ openBrace)) else .error .undefined

def argInfo (argName : Text) : ArgInfo where
  arg_is_pointer := (strstr (bytes ['*']) argName).isSome ||
    (strstr (bytes ['[']) argName).isSome || (strstr opencvImageWord argName).isSome
  arg_is_local := (strstr localWord argName).isSome
  arg_is_image := (strstr imageWord argName).isSome
  arg_is_sampler := (strstr samplerWord argName).isSome
  arg_is_struct := (strstr structWord argName).isSome

/-- The last of several arguments is cut at a brace. -/
def cutName (remaining : ℕ) (first : Bool) (piece : Text) : Option Text :=
  if remaining = 0 ∧ first = false then (strtok openBrace piece).map Prod.fst else some piece

/-- The loop over the arguments. -/
def argInfos : ℕ → Bool → Text → Option (List ArgInfo)
  | 0, _, _ => some []
  | remaining + 1, first, saved =>
      (strtok comma saved).bind fun piece =>
        (cutName remaining first piece.1).bind fun name =>
          (argInfos remaining false piece.2).map fun infos => argInfo name :: infos

/-- The assignments from the text between the name and the brace. -/
def assignArguments (memory : Kernel) (str_arg : Text) : Except Failure Kernel :=
  let num_args := str_arg.count comma + 1
  if str_arg ∈ [bytes ['(', ')'], bytes ['(', '\n', ')'], bytes ['(', ' ', ')']] then .ok memory
  else do
    let args ← found (argInfos num_args true str_arg)
    return { num_args := num_args, args := args }

/-- The kernel after the scan, from its memory before it. -/
def scanSignature (fuel : ℕ) (memory : Kernel) (kernel_name source : Text) :
    Except Failure Kernel :=
  if source.length < 65536 then do
    let str ← found (strstr kernelWord source)
    let str ← found (strstr voidWord str)
    let str ← found (nextName kernel_name str)
    let str ← skipNames kernel_name fuel str
    let str_arg ← argumentText str
    assignArguments memory str_arg
  else .error .undefined

end Scan

/-! ## Declarations -/

def isWord (character : UInt8) : Bool :=
  isDigit character || isNondigit character

/-- A parameter, with what its declared type is. -/
structure Parameter where
  text : Text
  declared : ArgInfo
  not_blank : ∃ character ∈ text, isWhite character = false

/-- A source around the declaration of a kernel with a body: `before` ends with its qualifiers,
`gap` is between the name and the list, and `tail` between the list and the body. -/
structure Declaration where
  before : Text
  name : Text
  gap : Text
  parameters : List Parameter
  emptyList : Text
  tail : Text
  body : Text
  name_ne_nil : name ≠ []
  name_word : ∀ character ∈ name, isWord character = true
  before_last : ∀ last ∈ before.getLast?, isWord last = false

/-- The parameters with commas between them. -/
def joined : List Text → Text
  | [] => []
  | [last] => last
  | first :: texts => first ++ comma :: joined texts

def Declaration.list (d : Declaration) : Text :=
  if d.parameters = [] then d.emptyList else joined (d.parameters.map Parameter.text)

/-- The texts with one text in front of the first and another one behind the last of them. -/
def surround (opening closing : Text) : List Text → List Text
  | [] => []
  | [last] => [opening ++ (last ++ closing)]
  | first :: second :: texts => (opening ++ first) :: surround [] closing (second :: texts)

/-- The texts of the parameters, with what is between the name and the body. -/
def Declaration.pieces (d : Declaration) : List Text :=
  surround (d.gap ++ [openParenthesis]) ([closeParenthesis] ++ d.tail)
    (d.parameters.map Parameter.text)

/-- The text from the name to the body. -/
def Declaration.signature (d : Declaration) : Text :=
  d.gap ++ [openParenthesis] ++ d.list ++ [closeParenthesis] ++ d.tail

def Declaration.source (d : Declaration) : Text :=
  d.before ++ d.name ++ (d.signature ++ openBrace :: d.body)

/-- The kernel has the declared arguments, whatever its memory was before. -/
def Scanned (d : Declaration) : Prop :=
  ∀ memory, ∃ fuel kernel, scanSignature fuel memory d.name d.source = .ok kernel ∧
    kernel.num_args = d.parameters.length ∧ kernel.args = d.parameters.map Parameter.declared

/-- The scan comes to the declaration: the name ends there at a separator, and does so nowhere
between the first `void` behind the first `kernel` and the declaration; the next brace is the
one of the body. -/
structure Reached (d : Declaration) : Prop where
  first : ∃ str, (strstr kernelWord d.before).bind (strstr voidWord) = some str ∧
    ∀ separator, isSeparator separator = true → ¬ d.name ++ [separator] <:+: str
  separated : ∀ next ∈ d.signature.head?, isSeparator next = true
  brace : openBrace ∉ d.signature

/-- The words in a text show the declared type of a parameter. -/
structure Shown (text : Text) (parameter : Parameter) : Prop where
  pointer : parameter.declared.arg_is_pointer = true ↔
    bytes ['*'] <:+: text ∨ bytes ['['] <:+: text ∨ opencvImageWord <:+: text
  isLocal : parameter.declared.arg_is_local = true ↔ localWord <:+: text
  image : parameter.declared.arg_is_image = true ↔ imageWord <:+: text
  sampler : parameter.declared.arg_is_sampler = true ↔ samplerWord <:+: text
  struct : parameter.declared.arg_is_struct = true ↔ structWord <:+: text

/-- The only commas between the name and the body are those between the parameters. -/
structure OnlyCommas (d : Declaration) : Prop where
  gap : comma ∉ d.gap
  parameter : ∀ parameter ∈ d.parameters, comma ∉ parameter.text
  tail : comma ∉ d.tail

/-- There are parameters, no other commas than between them, and types that the words show. -/
structure Listed (d : Declaration) : Prop where
  short : d.source.length < 65536
  ne_nil : d.parameters ≠ []
  commas : OnlyCommas d
  shown : List.Forall₂ Shown d.pieces d.parameters

section Search

variable {name after : Text}

theorem skipNames_of_separator {str : Text} (hstr : str.head?.any isSeparator = true) (fuel : ℕ) :
    skipNames name (fuel + 1) str = .ok str :=
  if_pos hstr

theorem skipNames_unique {fuel others : ℕ} {str result other : Text}
    (hresult : skipNames name fuel str = .ok result)
    (hother : skipNames name others str = .ok other) : result = other := by
  induction fuel generalizing others str with
  | zero => cases hresult
  | succ fuel ih =>
      cases others with
      | zero => cases hother
      | succ others =>
          rw [skipNames] at hresult hother
          split at hresult
          next hstop =>
            rw [if_pos hstop] at hother
            exact (Except.ok.inj hresult).symm.trans (Except.ok.inj hother)
          next hgoes =>
            rw [if_neg hgoes] at hother
            cases hnext : nextName name str with
            | none => rw [hnext] at hresult; cases hresult
            | some next =>
                rw [hnext] at hresult hother
                exact ih hresult hother

theorem isSeparator_eq_false {character : UInt8} (hword : isWord character = true) :
    isSeparator character = false := by
  by_contra hseparator
  simp only [isSeparator, Bool.not_eq_false, Bool.or_eq_true, decide_eq_true_eq] at hseparator
  obtain ((rfl | rfl) | rfl) | rfl := hseparator <;> exact absurd hword (by decide)

theorem isPrefix_of_append {text : Text} (hword : ∀ character ∈ name, isWord character = true)
    (hlast : ∀ last ∈ text.getLast?, isWord last = false) (hne : text ≠ [])
    (hfront : name <+: text ++ after) : name <+: text := by
  obtain hle | hlt := le_or_gt name.length text.length
  · exact List.prefix_of_prefix_length_le hfront (List.prefix_append _ _) hle
  · have hshort := List.prefix_of_prefix_length_le (List.prefix_append text after) hfront hlt.le
    obtain ⟨last, hlast'⟩ := Option.ne_none_iff_exists'.mp
      fun hnone => hne (List.getLast?_eq_none_iff.mp hnone)
    have hmem := hshort.subset (List.mem_of_getLast? hlast')
    have hfalse := hword last hmem
    rw [hlast last hlast'] at hfalse
    cases hfalse

theorem head_not_separator {next : Text} (hne : name ≠ [])
    (hword : ∀ character ∈ name, isWord character = true)
    (hunique : ∀ separator, isSeparator separator = true →
      ¬ name ++ [separator] <:+: name ++ next) :
    ¬ (next ++ (name ++ after)).head?.any isSeparator = true := by
  cases next with
  | nil =>
      cases name with
      | nil => exact absurd rfl hne
      | cons head name =>
          simp [isSeparator_eq_false (hword head List.mem_cons_self)]
  | cons head next =>
      intro hseparator
      refine hunique head (by simpa using hseparator) ⟨[], next, ?_⟩
      simp

/-- The search passes every occurrence of the name that no separator follows. -/
theorem skipNames_reaches (hne : name ≠ []) (hword : ∀ character ∈ name, isWord character = true)
    (hafter : after.head?.any isSeparator = true) (text : Text)
    (hlast : ∀ last ∈ text.getLast?, isWord last = false)
    (hunique : ∀ separator, isSeparator separator = true → ¬ name ++ [separator] <:+: text) :
    ∃ str fuel, nextName name (text ++ (name ++ after)) = some str ∧
      skipNames name fuel str = .ok after := by
  induction hlength : text.length using Nat.strong_induction_on generalizing text with
  | _ length ih =>
      subst hlength
      cases text with
      | nil =>
          refine ⟨after, 1, ?_, skipNames_of_separator hafter 0⟩
          rw [List.nil_append, nextName, strstr_of_isPrefix (List.prefix_append _ _),
            Option.map_some, List.drop_left]
      | cons first rest =>
          by_cases hfront : name <+: first :: rest ++ (name ++ after)
          · obtain ⟨next, hnext⟩ :=
              isPrefix_of_append hword hlast (List.cons_ne_nil _ _) hfront
            rw [← hnext] at hlast hunique ih ⊢
            have hpos := List.length_pos_of_ne_nil hne
            obtain ⟨str, fuel, hstr, hskip⟩ := ih next.length
              (by rw [List.length_append]; omega) next
              (fun last hmem => hlast last (by rw [List.getLast?_append, hmem]; rfl))
              (fun separator hseparator hinside => hunique separator hseparator
                (hinside.trans (List.suffix_append name next).isInfix)) rfl
            refine ⟨next ++ (name ++ after), fuel + 1, ?_, ?_⟩
            · rw [List.append_assoc, nextName, strstr_of_isPrefix (List.prefix_append _ _),
                Option.map_some, List.drop_left]
            · rw [skipNames, if_neg (head_not_separator hne hword hunique), hstr]
              exact hskip
          · obtain ⟨str, fuel, hstr, hskip⟩ := ih rest.length (Nat.lt_succ_self _) rest
              (fun last hmem => hlast last (by rw [List.getLast?_cons, hmem]; rfl))
              (fun separator hseparator hinside => hunique separator hseparator
                (hinside.trans (List.suffix_cons first rest).isInfix)) rfl
            refine ⟨str, fuel, ?_, hskip⟩
            rw [← hstr, nextName, nextName]
            exact congrArg (Option.map _) (strstr_cons hfront)

end Search

section Arguments

variable {opening closing text : Text}

theorem joined_cons {texts : List Text} (hne : texts ≠ []) :
    joined (text :: texts) = text ++ comma :: joined texts := by
  cases texts with
  | nil => exact absurd rfl hne
  | cons second texts => rfl

theorem mem_joined {texts : List Text} {character : UInt8} (htext : text ∈ texts)
    (hmem : character ∈ text) : character ∈ joined texts := by
  induction texts with
  | nil => cases htext
  | cons first texts ih =>
      by_cases hnil : texts = []
      · subst hnil
        rwa [List.mem_singleton.mp htext] at hmem
      · rw [joined_cons hnil, List.mem_append]
        obtain rfl | htext := List.mem_cons.mp htext
        · exact .inl hmem
        · exact .inr (List.mem_cons_of_mem _ (ih htext))

/-- The loop takes one parameter after the other. -/
theorem argInfos_joined {texts : List Text} (hne : texts ≠ []) (first : Bool)
    (hopening : comma ∉ opening) (hclosing : comma ∉ closing)
    (hnil : ∀ text ∈ texts, text ≠ []) (hcomma : ∀ text ∈ texts, comma ∉ text)
    (hbrace : openBrace ∉ opening ++ (joined texts ++ closing)) :
    argInfos texts.length first (opening ++ (joined texts ++ closing)) =
      some ((surround opening closing texts).map argInfo) := by
  induction texts generalizing opening first with
  | nil => exact absurd rfl hne
  | cons text texts ih =>
      obtain ⟨htextNil, hnil⟩ := List.forall_mem_cons.mp hnil
      obtain ⟨htextComma, hcomma⟩ := List.forall_mem_cons.mp hcomma
      cases texts with
      | nil =>
          have hpiece : comma ∉ opening ++ (text ++ closing) := by
            simp [hopening, htextComma, hclosing]
          have hne : opening ++ (text ++ closing) ≠ [] := by simp [htextNil]
          have hname : cutName 0 first (opening ++ (text ++ closing)) =
              some (opening ++ (text ++ closing)) := by
            cases first with
            | true => exact if_neg (by simp)
            | false =>
                rw [cutName, if_pos ⟨rfl, rfl⟩, strtok_last hne hbrace, Option.map_some]
          rw [joined, List.length_singleton, argInfos, strtok_last hne hpiece,
            Option.bind_some, hname, Option.bind_some, argInfos, Option.map_some]
          rfl
      | cons second texts =>
          have hpiece : comma ∉ opening ++ text := by simp [hopening, htextComma]
          have hne : opening ++ text ≠ [] := by simp [htextNil]
          have hname : cutName (second :: texts).length first (opening ++ text) =
              some (opening ++ text) := if_neg fun hlast => Nat.succ_ne_zero _ hlast.1
          have hsplit : opening ++ (joined (text :: second :: texts) ++ closing) =
              (opening ++ text) ++ comma :: (joined (second :: texts) ++ closing) := by
            rw [joined_cons (List.cons_ne_nil _ _)]
            simp
          rw [hsplit] at hbrace ⊢
          have hrest := ih (List.cons_ne_nil _ _) false List.not_mem_nil hnil hcomma
            fun hmem => hbrace (List.mem_append_right _ (List.mem_cons_of_mem _ hmem))
          rw [List.nil_append] at hrest
          rw [List.length_cons, argInfos, strtok_append hne hpiece, Option.bind_some]
          dsimp only
          rw [hname, Option.bind_some, hrest]
          rfl

/-- The commas of a list are the ones between the parameters and the ones inside of them. -/
theorem count_joined {texts : List Text} (hne : texts ≠ []) :
    (joined texts).count comma + 1 = texts.length + (texts.map (List.count comma)).sum := by
  induction texts with
  | nil => exact absurd rfl hne
  | cons text texts ih =>
      cases texts with
      | nil => simp [joined, Nat.add_comm]
      | cons second texts =>
          have hrest := ih (List.cons_ne_nil _ _)
          rw [joined_cons (List.cons_ne_nil _ _), List.count_append, List.count_cons_self,
            List.length_cons, List.map_cons, List.sum_cons]
          omega

end Arguments

section Declarations

variable {d : Declaration}

theorem Declaration.signature_eq (d : Declaration) : d.signature =
    (d.gap ++ [openParenthesis]) ++ (d.list ++ ([closeParenthesis] ++ d.tail)) := by
  simp [Declaration.signature]

/-- The types of the parameters are the assigned ones where the words show them. -/
theorem argInfo_eq_iff (text : Text) (parameter : Parameter) :
    argInfo text = parameter.declared ↔ Shown text parameter := by
  have hiff : ∀ word, (strstr word text).isSome = true ↔ word <:+: text :=
    fun word => isSome_strstr_iff
  constructor
  · intro heq
    constructor <;> simp [← heq, argInfo, hiff, or_assoc]
  · rintro ⟨hpointer, hlocal, himage, hsampler, hstruct⟩
    have hshown : (argInfo text).arg_is_pointer = true ↔
        parameter.declared.arg_is_pointer = true := by
      rw [hpointer]
      simp [argInfo, hiff, or_assoc]
    ext
    · exact Bool.eq_iff_iff.mpr hshown
    · exact Bool.eq_iff_iff.mpr ((hiff _).trans hlocal.symm)
    · exact Bool.eq_iff_iff.mpr ((hiff _).trans himage.symm)
    · exact Bool.eq_iff_iff.mpr ((hiff _).trans hsampler.symm)
    · exact Bool.eq_iff_iff.mpr ((hiff _).trans hstruct.symm)

/-- A parameter makes the signature differ from the ones of an empty list. -/
theorem signature_not_mem (hne : d.parameters ≠ []) :
    d.signature ∉ [bytes ['(', ')'], bytes ['(', '\n', ')'], bytes ['(', ' ', ')']] := by
  have hlist : 0 < (d.list.filter fun character => !isWhite character).length := by
    rw [Declaration.list, if_neg hne]
    obtain ⟨parameter, parameters, hparameters⟩ := List.exists_cons_of_ne_nil hne
    obtain ⟨character, hmem, hwhite⟩ := parameter.not_blank
    refine List.length_pos_of_mem (a := character) (List.mem_filter.mpr ⟨?_, by simp [hwhite]⟩)
    exact mem_joined (List.mem_map_of_mem (hparameters ▸ List.mem_cons_self)) hmem
  have hlength : 3 ≤ (d.signature.filter fun character => !isWhite character).length := by
    have hopen : ([openParenthesis].filter fun character => !isWhite character).length = 1 := by
      decide
    have hclose : ([closeParenthesis].filter fun character => !isWhite character).length = 1 := by
      decide
    rw [Declaration.signature]
    simp only [List.filter_append, List.length_append, hopen, hclose]
    omega
  have hshort : ∀ text ∈ [bytes ['(', ')'], bytes ['(', '\n', ')'], bytes ['(', ' ', ')']],
      (text.filter fun character => !isWhite character).length = 2 := by
    decide
  intro hmem
  rw [hshort _ hmem] at hlength
  omega

theorem count_signature (hne : d.parameters ≠ []) :
    d.signature.count comma + 1 = d.parameters.length + (d.gap.count comma +
      ((d.parameters.map Parameter.text).map (List.count comma)).sum + d.tail.count comma) := by
  have htexts : d.parameters.map Parameter.text ≠ [] := by simpa using hne
  have hcount := count_joined htexts
  have hopen : [openParenthesis].count comma = 0 := by decide
  have hclose : [closeParenthesis].count comma = 0 := by decide
  rw [List.length_map] at hcount
  rw [d.signature_eq, Declaration.list, if_neg hne]
  simp only [List.count_append, hopen, hclose]
  omega

theorem onlyCommas_iff : OnlyCommas d ↔ d.gap.count comma +
    ((d.parameters.map Parameter.text).map (List.count comma)).sum + d.tail.count comma = 0 := by
  constructor
  · rintro ⟨hgap, hparameter, htail⟩
    simpa [List.sum_eq_zero_iff, List.count_eq_zero, hgap, htail] using hparameter
  · intro hzero
    obtain ⟨⟨hgap, hparameters⟩, htail⟩ :=
      (Nat.add_eq_zero_iff.mp hzero).imp_left Nat.add_eq_zero_iff.mp
    refine ⟨List.count_eq_zero.mp hgap, ?_, List.count_eq_zero.mp htail⟩
    simpa [List.sum_eq_zero_iff, List.count_eq_zero] using hparameters

/-- The assignments for a list with parameters. -/
theorem assignArguments_eq (hbrace : openBrace ∉ d.signature) (hne : d.parameters ≠ [])
    (hcommas : OnlyCommas d) (memory : Kernel) :
    assignArguments memory d.signature = .ok
      { num_args := d.parameters.length
        args := d.pieces.map argInfo } := by
  have hlist : d.list = joined (d.parameters.map Parameter.text) := if_neg hne
  have htexts : d.parameters.map Parameter.text ≠ [] := by simpa using hne
  have hcount : d.signature.count comma + 1 = d.parameters.length := by
    rw [count_signature hne, onlyCommas_iff.mp hcommas]
    rfl
  have hnil : ∀ text ∈ d.parameters.map Parameter.text, text ≠ [] := by
    intro text hmem hnil
    obtain ⟨parameter, -, rfl⟩ := List.mem_map.mp hmem
    obtain ⟨character, hcharacter, -⟩ := parameter.not_blank
    rw [hnil] at hcharacter
    cases hcharacter
  have hopening : comma ∉ d.gap ++ [openParenthesis] := by
    simpa [hcommas.gap] using (by decide : comma ≠ openParenthesis)
  have hclosing : comma ∉ [closeParenthesis] ++ d.tail := by
    simpa [hcommas.tail] using (by decide : comma ≠ closeParenthesis)
  rw [d.signature_eq, hlist] at hbrace
  have hinfos := argInfos_joined htexts true hopening hclosing hnil
    (by simpa using hcommas.parameter) hbrace
  rw [← hlist, ← d.signature_eq, List.length_map] at hinfos
  rw [assignArguments, if_neg (signature_not_mem hne), hcount, hinfos]
  rfl

theorem assignArguments_num_args {memory kernel : Kernel} {str_arg : Text}
    (hkernel : assignArguments memory str_arg = .ok kernel) :
    kernel = memory ∨ kernel.num_args = str_arg.count comma + 1 := by
  rw [assignArguments] at hkernel
  split at hkernel
  next => exact .inl (Except.ok.inj hkernel).symm
  next =>
    cases hinfos : argInfos (str_arg.count comma + 1) true str_arg with
    | none => rw [hinfos] at hkernel; cases hkernel
    | some infos =>
        rw [hinfos] at hkernel
        rw [← Except.ok.inj hkernel]
        exact .inr rfl

theorem map_argInfo_eq_iff (texts : List Text) (parameters : List Parameter) :
    texts.map argInfo = parameters.map Parameter.declared ↔
      List.Forall₂ Shown texts parameters := by
  rw [← List.forall₂_eq_eq_eq, List.forall₂_map_left_iff, List.forall₂_map_right_iff]
  exact ⟨List.Forall₂.imp fun text parameter => (argInfo_eq_iff text parameter).mp,
    List.Forall₂.imp fun text parameter => (argInfo_eq_iff text parameter).mpr⟩

/-- What the assignments need. -/
theorem assignArguments_iff (hbrace : openBrace ∉ d.signature) :
    (∀ memory, ∃ kernel, assignArguments memory d.signature = .ok kernel ∧
      kernel.num_args = d.parameters.length ∧
        kernel.args = d.parameters.map Parameter.declared) ↔
      d.parameters ≠ [] ∧ OnlyCommas d ∧ List.Forall₂ Shown d.pieces d.parameters := by
  constructor
  · intro hassigned
    -- The memory before shows whether the number of arguments is assigned at all.
    obtain ⟨kernel, hkernel, hnum_args, hargs⟩ :=
      hassigned { num_args := d.parameters.length + 1, args := [] }
    have hcount : d.parameters.length = d.signature.count comma + 1 := by
      obtain hmemory | hcount := assignArguments_num_args hkernel
      · rw [hmemory] at hnum_args
        exact absurd hnum_args (Nat.succ_ne_self _)
      · rw [← hnum_args, hcount]
    have hne : d.parameters ≠ [] := by
      intro hnil
      rw [hnil] at hcount
      cases hcount
    have hcommas : OnlyCommas d := by
      have hlist := count_signature hne
      exact onlyCommas_iff.mpr (by omega)
    rw [assignArguments_eq hbrace hne hcommas] at hkernel
    rw [← Except.ok.inj hkernel] at hargs
    exact ⟨hne, hcommas, (map_argInfo_eq_iff _ _).mp hargs⟩
  · rintro ⟨hne, hcommas, hshown⟩ memory
    exact ⟨_, assignArguments_eq hbrace hne hcommas memory, rfl,
      (map_argInfo_eq_iff _ _).mpr hshown⟩

theorem argumentText_signature (hbrace : openBrace ∉ d.signature) :
    argumentText (d.signature ++ openBrace :: d.body) = .ok d.signature := by
  rw [argumentText, if_pos (by simp), List.takeWhile_append_of_pos
    (forall_ne_of_not_mem hbrace)]
  simp

/-- The searches lead to the signature of a declaration that they reach. -/
theorem Reached.search (hreached : Reached d) : ∃ kernelStr voidStr str fuel,
    strstr kernelWord d.source = some kernelStr ∧ strstr voidWord kernelStr = some voidStr ∧
      nextName d.name voidStr = some str ∧
        skipNames d.name fuel str = .ok (d.signature ++ openBrace :: d.body) := by
  obtain ⟨voidStr, hfound, hunique⟩ := hreached.first
  obtain ⟨kernelStr, hkernel, hvoid⟩ := Option.bind_eq_some_iff.mp hfound
  have hafter : (d.signature ++ openBrace :: d.body).head?.any isSeparator = true := by
    have hseparated := hreached.separated
    cases hsignature : d.signature with
    | nil =>
        rw [d.signature_eq] at hsignature
        simp at hsignature
    | cons first signature =>
        rw [hsignature] at hseparated
        exact hseparated first rfl
  have hlast : ∀ last ∈ voidStr.getLast?, isWord last = false := by
    obtain ⟨start, hstart⟩ := (strstr_spec hvoid).2.trans (strstr_spec hkernel).2
    intro last hmem
    refine d.before_last last ?_
    rw [← hstart, List.getLast?_append, hmem]
    rfl
  obtain ⟨str, fuel, hstr, hskip⟩ :=
    skipNames_reaches d.name_ne_nil d.name_word hafter voidStr hlast hunique
  refine ⟨_, _, str, fuel, ?_, strstr_append hvoid _, hstr, hskip⟩
  rw [Declaration.source, List.append_assoc]
  exact strstr_append hkernel _

theorem Reached.scan_eq (hreached : Reached d) (hshort : d.source.length < 65536) :
    ∃ fuel, ∀ memory, scanSignature fuel memory d.name d.source =
      assignArguments memory d.signature := by
  obtain ⟨kernelStr, voidStr, str, fuel, hkernel, hvoid, hname, hskip⟩ := hreached.search
  refine ⟨fuel, fun memory => ?_⟩
  rw [scanSignature, if_pos hshort, hkernel]
  simp only [found, bind, Except.bind, hvoid, hname, hskip,
    argumentText_signature hreached.brace]

theorem Reached.of_scan_eq (hreached : Reached d) {fuel : ℕ} {memory kernel : Kernel}
    (hscan : scanSignature fuel memory d.name d.source = .ok kernel) :
    d.source.length < 65536 ∧ assignArguments memory d.signature = .ok kernel := by
  obtain ⟨kernelStr, voidStr, str, enough, hkernel, hvoid, hname, hskip⟩ := hreached.search
  rw [scanSignature] at hscan
  split at hscan
  next hshort =>
    refine ⟨hshort, ?_⟩
    simp only [hkernel, found, bind, Except.bind, hvoid, hname] at hscan
    cases hresult : skipNames d.name fuel str with
    | error failure => rw [hresult] at hscan; cases hscan
    | ok result =>
        rw [hresult, skipNames_unique hresult hskip] at hscan
        simpa only [argumentText_signature hreached.brace] using hscan
  next => cases hscan

end Declarations

def scalar : ArgInfo where
  arg_is_pointer := false
  arg_is_local := false
  arg_is_image := false
  arg_is_sampler := false
  arg_is_struct := false

/-- The source `kernel void f(…)…{}`. -/
def voidDeclaration (parameters : List Parameter) (tail : Text) : Declaration where
  before := kernelWord ++ [32] ++ voidWord ++ [32]
  name := bytes ['f']
  gap := []
  parameters := parameters
  emptyList := []
  tail := tail
  body := bytes ['}']
  name_ne_nil := by decide
  name_word character hmem := by
    obtain rfl : character = 102 := List.mem_singleton.mp hmem
    decide
  before_last last hlast := by
    obtain rfl : 32 = last := Option.some.inj hlast
    decide

theorem voidDeclaration_reached {parameters : List Parameter} {tail : Text}
    (hbrace : openBrace ∉ (voidDeclaration parameters tail).signature) :
    Reached (voidDeclaration parameters tail) where
  first := by
    have hfound : (strstr kernelWord (kernelWord ++ [32] ++ voidWord ++ [32])).bind
        (strstr voidWord) = some (voidWord ++ [32]) := by decide
    refine ⟨voidWord ++ [32], hfound, fun separator _ hinside => ?_⟩
    exact absurd (hinside.subset List.mem_cons_self) (by decide)
  separated next hnext := by
    obtain rfl : openParenthesis = next := Option.some.inj hnext
    decide
  brace := hbrace

/-- The parameters `global int*a,local int*b,image2d_t c,sampler_t d,struct s e`. -/
def typedParameters : List Parameter :=
  [{ text := bytes ['g', 'l', 'o', 'b', 'a', 'l', ' ', 'i', 'n', 't', '*', 'a']
     declared := { scalar with arg_is_pointer := true }
     not_blank := ⟨103, List.mem_cons_self, by decide⟩ },
    { text := bytes ['l', 'o', 'c', 'a', 'l', ' ', 'i', 'n', 't', '*', 'b']
      declared := { scalar with arg_is_pointer := true, arg_is_local := true }
      not_blank := ⟨108, List.mem_cons_self, by decide⟩ },
    { text := bytes ['i', 'm', 'a', 'g', 'e', '2', 'd', '_', 't', ' ', 'c']
      declared := { scalar with arg_is_image := true }
      not_blank := ⟨105, List.mem_cons_self, by decide⟩ },
    { text := bytes ['s', 'a', 'm', 'p', 'l', 'e', 'r', '_', 't', ' ', 'd']
      declared := { scalar with arg_is_sampler := true }
      not_blank := ⟨115, List.mem_cons_self, by decide⟩ },
    { text := bytes ['s', 't', 'r', 'u', 'c', 't', ' ', 's', ' ', 'e']
      declared := { scalar with arg_is_struct := true }
      not_blank := ⟨115, List.mem_cons_self, by decide⟩ }]

/-- An attribute behind the list, `__attribute__((vec_type_hint(int)))`. -/
def hintTail : Text :=
  bytes [' ', '_', '_', 'a', 't', 't', 'r', 'i', 'b', 'u', 't', 'e', '_', '_', '(', '(', 'v',
    'e', 'c', '_', 't', 'y', 'p', 'e', '_', 'h', 'i', 'n', 't', '(', 'i', 'n', 't', ')', ')',
    ')', ' ']

def typedDeclaration : Declaration :=
  voidDeclaration typedParameters hintTail

theorem typedDeclaration_listed : Listed typedDeclaration where
  short := by decide
  ne_nil := List.cons_ne_nil _ _
  commas := ⟨by decide, by decide, by decide⟩
  shown := by
    refine .cons ?_ (.cons ?_ (.cons ?_ (.cons ?_ (.cons ?_ .nil)))) <;>
      constructor <;> decide

/-- The source `kernel void f(int nlocal){}`. -/
def nlocalDeclaration : Declaration :=
  voidDeclaration
    [{ text := bytes ['i', 'n', 't', ' ', 'n', 'l', 'o', 'c', 'a', 'l']
       declared := scalar
       not_blank := ⟨105, List.mem_cons_self, by decide⟩ }]
    []

end Pocl.KernelSignatures
