/-!
# Grammars

A grammar is a list of named rules, each bound to an expression of sequences, ordered choices,
repetitions, references and terminals. Nothing here checks a grammar; a `Grammar` is plain data
with decidable equality.
-/

namespace Packrat

/-- An expression of a grammar. -/
inductive Rule where
  /-- Nothing at all. -/
  | blank
  /-- A literal text. -/
  | literal (text : String)
  /-- A regular expression with flags for the whole of it. -/
  | pattern (source : String) (flags : Option String)
  /-- A reference to a rule. -/
  | symbol (name : String)
  /-- All members in order. -/
  | seq (members : List Rule)
  /-- The first member that matches. -/
  | choice (members : List Rule)
  /-- As many matches in a row as there are, from `min` to `max`. -/
  | repetition (content : Rule) (min : UInt32) (max : Option UInt32)
  /-- A lexical expression taken for one terminal; an immediate one has no trivia before it. -/
  | token (content : Rule) (immediate : Bool)
  /-- What the content produces, under another name. -/
  | renamed (content : Rule) (name : String) (named : Bool)
  /-- The content, in a role that has a name. -/
  | field (name : String) (content : Rule)
  deriving Repr, Inhabited

namespace Rule

mutual

/-- Whether two expressions are the same. -/
def same : Rule → Rule → Bool
  | blank, blank => true
  | literal s, literal t => s == t
  | pattern s f, pattern t g => s == t && f == g
  | symbol s, symbol t => s == t
  | seq as, seq bs => sameAll as bs
  | choice as, choice bs => sameAll as bs
  | repetition a m n, repetition b m' n' => a.same b && m == m' && n == n'
  | token a i, token b j => a.same b && i == j
  | renamed a s i, renamed b t j => a.same b && s == t && i == j
  | field s a, field t b => s == t && a.same b
  | _, _ => false

/-- Whether two lists of expressions are the same. -/
def sameAll : List Rule → List Rule → Bool
  | [], [] => true
  | a :: as, b :: bs => a.same b && sameAll as bs
  | _, _ => false

end

mutual

/-- An expression is the same as itself. -/
theorem same_refl : (a : Rule) → a.same a = true
  | blank => by simp [same]
  | literal _ => by simp [same]
  | pattern _ _ => by simp [same]
  | symbol _ => by simp [same]
  | seq as => by simp [same, sameAll_refl as]
  | choice as => by simp [same, sameAll_refl as]
  | repetition a _ _ => by simp [same, same_refl a]
  | token a _ => by simp [same, same_refl a]
  | renamed a _ _ => by simp [same, same_refl a]
  | field _ a => by simp [same, same_refl a]

/-- Expressions in a list are the same as themselves. -/
theorem sameAll_refl : (as : List Rule) → sameAll as as = true
  | [] => by simp [sameAll]
  | a :: as => by simp [sameAll, same_refl a, sameAll_refl as]

end

mutual

/-- Expressions that are found to be the same are equal. -/
theorem eq_of_same : (a b : Rule) → a.same b = true → a = b
  | blank, b, h => by cases b <;> simp_all [same]
  | literal _, b, h => by cases b <;> simp_all [same]
  | pattern _ _, b, h => by cases b <;> simp_all [same]
  | symbol _, b, h => by cases b <;> simp_all [same]
  | seq as, b, h => by
    cases b <;> simp only [same, Bool.false_eq_true] at h
    rw [eq_of_sameAll as _ h]
  | choice as, b, h => by
    cases b <;> simp only [same, Bool.false_eq_true] at h
    rw [eq_of_sameAll as _ h]
  | repetition a _ _, b, h => by
    cases b <;> simp only [same, Bool.false_eq_true, Bool.and_eq_true, beq_iff_eq] at h
    rw [eq_of_same a _ h.1.1, h.1.2, h.2]
  | token a _, b, h => by
    cases b <;> simp only [same, Bool.false_eq_true, Bool.and_eq_true, beq_iff_eq] at h
    rw [eq_of_same a _ h.1, h.2]
  | renamed a _ _, b, h => by
    cases b <;> simp only [same, Bool.false_eq_true, Bool.and_eq_true, beq_iff_eq] at h
    rw [eq_of_same a _ h.1.1, h.1.2, h.2]
  | field _ a, b, h => by
    cases b <;> simp only [same, Bool.false_eq_true, Bool.and_eq_true, beq_iff_eq] at h
    rw [eq_of_same a _ h.2, h.1]

/-- Lists of expressions that are found to be the same are equal. -/
theorem eq_of_sameAll : (as bs : List Rule) → sameAll as bs = true → as = bs
  | [], bs, h => by cases bs <;> simp_all [sameAll]
  | a :: as, bs, h => by
    cases bs <;> simp only [sameAll, Bool.false_eq_true, Bool.and_eq_true] at h
    rw [eq_of_same a _ h.1, eq_of_sameAll as _ h.2]

end

/-- Comparing expressions decides equality. -/
theorem same_iff (a b : Rule) : a.same b = true ↔ a = b :=
  ⟨eq_of_same a b, fun h => h ▸ same_refl a⟩

instance : DecidableEq Rule := fun a b => decidable_of_iff _ (same_iff a b)

/-- The expression under the roles that have names. -/
def unwrapped : Rule → Rule
  | field _ content => content.unwrapped
  | rule => rule

/-- Whether the expression is a single terminal. -/
def isTerminal (rule : Rule) : Bool :=
  match rule.unwrapped with
  | literal _ => true
  | pattern _ _ => true
  | token _ _ => true
  | _ => false

/-- The expressions directly below, in order. -/
def children : Rule → List Rule
  | seq members => members
  | choice members => members
  | repetition content _ _ => [content]
  | token content _ => [content]
  | renamed content _ _ => [content]
  | field _ content => [content]
  | _ => []

/-- The content or nothing. -/
def optional (content : Rule) : Rule := choice [content, blank]

end Rule

/-- A grammar. -/
structure Grammar where
  name : String
  /-- The start rule; without one the first rule is. -/
  start : Option String := none
  /-- The rules in the order of their definition. -/
  rules : List (String × Rule) := []
  /-- What may stand before every token that is not immediate. -/
  extras : List Rule := []
  /-- Rules whose children go to the parent. -/
  inlined : List String := []
  /-- Further rules whose children go to the parent. -/
  supertypes : List String := []
  /-- The rule of words, for interchange only. -/
  word : Option String := none
  /-- Tokens that are scanned elsewhere, for interchange only. -/
  externals : List Rule := []
  deriving Repr, DecidableEq, Inhabited

namespace Grammar

/-- The name of the start rule. -/
def startRule? (g : Grammar) : Option String :=
  match g.start with
  | some name => some name
  | none => g.rules.head?.map (·.1)

/-- The expression of the first rule of a name. -/
def find? (g : Grammar) (name : String) : Option Rule :=
  (g.rules.find? fun rule => rule.1 == name).map (·.2)

/-- Whether the children of the rules of a name go to the parent: those whose name begins with an
underscore, and those that are listed for it. -/
def isHidden (g : Grammar) (name : String) : Bool :=
  name.toList.head? == some '_' || g.inlined.contains name || g.supertypes.contains name

end Grammar

end Packrat
