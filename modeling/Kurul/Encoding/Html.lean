import Mathlib

/-! HTML the way its tokenizer reads it, as far as start tags with quoted attributes, end tags, text and the references
an escaper writes go; the rest is refused. A document made of pieces is read back piece by piece, whatever the texts. -/
namespace Kurul.Encoding.Html

abbrev Text := List Char

def escapeChar : Char → Text
  | '&' => ['&', 'a', 'm', 'p', ';']
  | '<' => ['&', 'l', 't', ';']
  | '>' => ['&', 'g', 't', ';']
  | '"' => ['&', 'q', 'u', 'o', 't', ';']
  | '\'' => ['&', '#', '3', '9', ';']
  | c => [c]

def escape (text : Text) : Text := text.flatMap escapeChar

/-- Resolves the references; one that is not among them is refused. -/
def decodeRefs : Text → Option Text
  | [] => some []
  | '&' :: 'a' :: 'm' :: 'p' :: ';' :: rest => (decodeRefs rest).map ('&' :: ·)
  | '&' :: 'l' :: 't' :: ';' :: rest => (decodeRefs rest).map ('<' :: ·)
  | '&' :: 'g' :: 't' :: ';' :: rest => (decodeRefs rest).map ('>' :: ·)
  | '&' :: 'q' :: 'u' :: 'o' :: 't' :: ';' :: rest => (decodeRefs rest).map ('"' :: ·)
  | '&' :: '#' :: '3' :: '9' :: ';' :: rest => (decodeRefs rest).map ('\'' :: ·)
  | c :: rest => if c = '&' then none else (decodeRefs rest).map (c :: ·)

inductive Token where
  | text (value : Text)
  | startTag (name : Text) (attributes : List (Text × Text))
  | endTag (name : Text)
  deriving DecidableEq

/-- A token without the words of its text. -/
def Token.skeleton : Token → Token
  | .text _ => .text []
  | token => token

inductive State where
  | data (raw : Text)
  | tagOpen
  | endTagName (name : Text)
  | tagName (name : Text)
  | beforeAttribute (name : Text) (attributes : List (Text × Text))
  | attributeName (name : Text) (attributes : List (Text × Text)) (field : Text)
  | beforeValue (name : Text) (attributes : List (Text × Text)) (field : Text)
  | value (name : Text) (attributes : List (Text × Text)) (field raw : Text)
  | afterValue (name : Text) (attributes : List (Text × Text))

/-- What tag and field names are made of here. -/
def isName (c : Char) : Bool := ('a'.toNat ≤ c.toNat && c.toNat ≤ 'z'.toNat) || ('0'.toNat ≤ c.toNat && c.toNat ≤ '9'.toNat)

/-- The text node that ends where a tag begins. -/
def flush (raw : Text) : Option (List Token) :=
  if raw = [] then some [] else (decodeRefs raw).map fun value => [.text value]

def step : State → Char → Option (State × List Token)
  | .data raw, c => if c = '<' then (flush raw).map (.tagOpen, ·) else some (.data (raw ++ [c]), [])
  | .tagOpen, c =>
      if c = '/' then some (.endTagName [], []) else if isName c then some (.tagName [c], []) else none
  | .endTagName name, c =>
      if isName c then some (.endTagName (name ++ [c]), [])
      else if c = '>' ∧ name ≠ [] then some (.data [], [.endTag name]) else none
  | .tagName name, c =>
      if isName c then some (.tagName (name ++ [c]), [])
      else if c = ' ' then some (.beforeAttribute name [], [])
      else if c = '>' then some (.data [], [.startTag name []]) else none
  | .beforeAttribute name attributes, c =>
      if isName c then some (.attributeName name attributes [c], []) else none
  | .attributeName name attributes field, c =>
      if isName c then some (.attributeName name attributes (field ++ [c]), [])
      else if c = '=' then some (.beforeValue name attributes field, []) else none
  | .beforeValue name attributes field, c =>
      if c = '"' then some (.value name attributes field [], []) else none
  | .value name attributes field raw, c =>
      if c = '"' then (decodeRefs raw).map fun value => (.afterValue name (attributes ++ [(field, value)]), [])
      else some (.value name attributes field (raw ++ [c]), [])
  | .afterValue name attributes, c =>
      if c = ' ' then some (.beforeAttribute name attributes, [])
      else if c = '>' then some (.data [], [.startTag name attributes]) else none

def tokensFrom : State → Text → Option (List Token)
  | .data raw, [] => flush raw
  | _, [] => none
  | state, c :: rest => (step state c).bind fun next => (tokensFrom next.1 rest).map (next.2 ++ ·)

def tokenise (document : Text) : Option (List Token) := tokensFrom (.data []) document

/-- A piece of a document; texts and field values are escaped where they are written. -/
inductive Piece where
  | text (value : Text)
  | open_ (name : Text) (attributes : List (Text × Text))
  | close (name : Text)

namespace Piece

def renderAttribute (field : Text × Text) : Text :=
  ' ' :: field.1 ++ '=' :: '"' :: escape field.2 ++ ['"']

def render : Piece → Text
  | .text value => escape value
  | .open_ name attributes => '<' :: name ++ attributes.flatMap renderAttribute ++ ['>']
  | .close name => '<' :: '/' :: name ++ ['>']

def token : Piece → Token
  | .text value => .text value
  | .open_ name attributes => .startTag name attributes
  | .close name => .endTag name

def isText : Piece → Bool
  | .text _ => true
  | _ => false

end Piece

def isWord (name : Text) : Bool := name ≠ [] && name.all isName

/-- Names are names, no text is empty, and no text follows another. -/
def proper : List Piece → Bool
  | [] => true
  | .text value :: rest => value ≠ [] && !rest.head?.any Piece.isText && proper rest
  | .open_ name attributes :: rest => isWord name && attributes.all (fun field => isWord field.1) && proper rest
  | .close name :: rest => isWord name && proper rest

section Escaping

theorem decodeRefs_escapeChar (c : Char) (rest : Text) :
    decodeRefs (escapeChar c ++ rest) = (decodeRefs rest).map (c :: ·) := by
  unfold escapeChar
  split
  · rfl
  · rfl
  · rfl
  · rfl
  · rfl
  · rename_i amp _ _ _ _
    rw [List.singleton_append, decodeRefs]
    · rw [if_neg amp]
    all_goals
      intros
      simp_all

theorem decodeRefs_escape (text : Text) : decodeRefs (escape text) = some text := by
  induction text with
  | nil => rfl
  | cons c rest ih =>
      rw [escape, List.flatMap_cons, decodeRefs_escapeChar, ← escape, ih]
      rfl

theorem mem_escape {text : Text} {c : Char} (member : c ∈ escape text) : c ≠ '<' ∧ c ≠ '"' := by
  obtain ⟨original, _, escaped⟩ := List.mem_flatMap.mp member
  unfold escapeChar at escaped
  split at escaped
  all_goals
    simp only [List.mem_cons, List.not_mem_nil, or_false] at escaped
    aesop

theorem escape_ne_nil {text : Text} (some_ : text ≠ []) : escape text ≠ [] := by
  intro empty
  have decoded := decodeRefs_escape text
  rw [empty] at decoded
  cases decoded
  exact some_ rfl

end Escaping

section Runs

variable {text rest name field value raw : Text} {attributes more : List (Text × Text)}

theorem tokensFrom_cons (state : State) (c : Char) (rest : Text) :
    tokensFrom state (c :: rest) = (step state c).bind fun next => (tokensFrom next.1 rest).map (next.2 ++ ·) := by
  cases state <;> rfl

theorem tokensFrom_quiet {state : State} {c : Char} (next : State) (stepped : step state c = some (next, []))
    (rest : Text) :
    tokensFrom state (c :: rest) = tokensFrom next rest := by
  rw [tokensFrom_cons, stepped]
  exact Option.map_id'

/-- A state that collects characters collects all there are. -/
theorem collect {S : Text → State} {p : Char → Prop}
    (grows : ∀ seen c, p c → step (S seen) c = some (S (seen ++ [c]), [])) (seen rest : Text) (all : ∀ c ∈ text, p c) :
    tokensFrom (S seen) (text ++ rest) = tokensFrom (S (seen ++ text)) rest := by
  induction text generalizing seen with
  | nil => rw [List.nil_append, List.append_nil]
  | cons c text ih =>
      rw [List.cons_append, tokensFrom_quiet _ (grows seen c (all c List.mem_cons_self)),
        ih _ fun later member => all later (List.mem_cons_of_mem _ member), List.append_assoc, List.singleton_append]

theorem word_cons (word : isWord name = true) :
    ∃ first letters, name = first :: letters ∧ isName first = true ∧ ∀ c ∈ letters, isName c = true := by
  obtain ⟨some_, all⟩ := Bool.and_eq_true_iff.mp word
  cases name with
  | nil => simp at some_
  | cons first letters =>
      have all := List.all_eq_true.mp all
      exact ⟨first, letters, rfl, all first List.mem_cons_self, fun c member => all c (List.mem_cons_of_mem _ member)⟩

theorem tokensFrom_attribute (word : isWord field = true) :
    tokensFrom (.beforeAttribute name attributes) (field ++ '=' :: '"' :: (escape value ++ '"' :: rest)) =
      tokensFrom (.afterValue name (attributes ++ [(field, value)])) rest := by
  obtain ⟨first, letters, rfl, firstName, names⟩ := word_cons word
  rw [List.cons_append, tokensFrom_quiet (.attributeName name attributes [first]) (by simp [step, firstName]),
    collect (S := .attributeName name attributes) (fun _ _ letter => by simp [step, letter]) _ _ names,
    tokensFrom_quiet (.beforeValue name attributes (first :: letters)) (by simp [step, isName]),
    tokensFrom_quiet (.value name attributes (first :: letters) []) rfl,
    collect (S := .value name attributes (first :: letters)) (fun _ _ plain => by simp [step, plain]) _ _
      fun _ member => (mem_escape member).2, List.nil_append]
  exact tokensFrom_quiet _ (by simp [step, decodeRefs_escape]) rest

theorem tokensFrom_attributes (words : ∀ field ∈ more, isWord field.1 = true) :
    tokensFrom (.afterValue name attributes) (more.flatMap Piece.renderAttribute ++ '>' :: rest) =
      (tokensFrom (.data []) rest).map (.startTag name (attributes ++ more) :: ·) := by
  induction more generalizing attributes with
  | nil =>
      rw [List.flatMap_nil, List.nil_append, List.append_nil, tokensFrom_cons]
      rfl
  | cons field more ih =>
      have shape : (field :: more).flatMap Piece.renderAttribute ++ '>' :: rest =
          ' ' :: (field.1 ++ '=' :: '"' :: (escape field.2 ++ '"' ::
            (more.flatMap Piece.renderAttribute ++ '>' :: rest))) := by
        simp [Piece.renderAttribute]
      rw [shape, tokensFrom_quiet (.beforeAttribute name attributes) rfl,
        tokensFrom_attribute (words field List.mem_cons_self),
        ih fun later member => words later (List.mem_cons_of_mem _ member), List.append_assoc, List.singleton_append]

theorem tokensFrom_open (word : isWord name = true) (words : ∀ field ∈ attributes, isWord field.1 = true) :
    tokensFrom .tagOpen (name ++ attributes.flatMap Piece.renderAttribute ++ '>' :: rest) =
      (tokensFrom (.data []) rest).map (.startTag name attributes :: ·) := by
  obtain ⟨first, letters, rfl, firstName, names⟩ := word_cons word
  have letter : first ≠ '/' := by
    rintro rfl
    simp [isName] at firstName
  rw [List.append_assoc, List.cons_append,
    tokensFrom_quiet (.tagName [first]) (by simp [step, firstName, letter]),
    collect (S := .tagName) (fun _ _ letter => by simp [step, letter]) _ _ names]
  cases attributes with
  | nil =>
      rw [List.flatMap_nil, List.nil_append, tokensFrom_cons]
      rfl
  | cons field more =>
      have shape : (field :: more).flatMap Piece.renderAttribute ++ '>' :: rest =
          ' ' :: (field.1 ++ '=' :: '"' :: (escape field.2 ++ '"' ::
            (more.flatMap Piece.renderAttribute ++ '>' :: rest))) := by
        simp [Piece.renderAttribute]
      rw [shape, tokensFrom_quiet (.beforeAttribute (first :: letters) []) (by simp [step, isName]),
        tokensFrom_attribute (words field List.mem_cons_self),
        tokensFrom_attributes fun later member => words later (List.mem_cons_of_mem _ member)]
      rfl

theorem tokensFrom_close (word : isWord name = true) :
    tokensFrom .tagOpen ('/' :: (name ++ '>' :: rest)) = (tokensFrom (.data []) rest).map (.endTag name :: ·) := by
  obtain ⟨first, letters, rfl, firstName, names⟩ := word_cons word
  have all : ∀ c ∈ first :: letters, isName c = true := by
    intro c member
    rcases List.mem_cons.mp member with rfl | later
    · exact firstName
    · exact names c later
  rw [tokensFrom_quiet (.endTagName []) rfl,
    collect (S := .endTagName) (p := (isName · = true)) (fun _ _ letter => by simp [step, letter]) _ _ all,
    List.nil_append, tokensFrom_cons]
  have ends : step (.endTagName (first :: letters)) '>' = some (.data [], [.endTag (first :: letters)]) := by
    simp [step, isName]
  rw [ends]
  rfl

/-- A tag ends the text before it. -/
theorem tokensFrom_flush (raw rest : Text) :
    tokensFrom (.data raw) ('<' :: rest) =
      (flush raw).bind fun tokens => (tokensFrom .tagOpen rest).map (tokens ++ ·) := by
  rw [tokensFrom_cons]
  cases flushed : flush raw <;> simp [step, flushed]

theorem flush_escape {value : Text} (some_ : value ≠ []) : flush (escape value) = some [.text value] := by
  rw [flush, if_neg (escape_ne_nil some_), decodeRefs_escape]
  rfl

/-- Raw text stands before pieces that do not begin with a text. -/
theorem tokensFrom_pieces (pieces : List Piece) (formed : proper pieces = true) (raw : Text)
    (apart : raw = [] ∨ pieces.head?.any Piece.isText = false) :
    tokensFrom (.data raw) (pieces.flatMap Piece.render) = (flush raw).map (· ++ pieces.map Piece.token) := by
  induction pieces generalizing raw with
  | nil => simp [tokensFrom]
  | cons piece rest ih =>
      have later (proper_ : proper rest = true) :
          tokensFrom (.data []) (rest.flatMap Piece.render) = some (rest.map Piece.token) := by
        simpa [flush] using ih proper_ [] (Or.inl rfl)
      cases piece with
      | text value =>
          simp only [proper, Bool.and_eq_true, decide_eq_true_eq, Bool.not_eq_true'] at formed
          obtain rfl : raw = [] := by simpa [Piece.isText] using apart
          rw [List.flatMap_cons, Piece.render,
            collect (S := .data) (fun _ _ plain => by simp [step, plain]) _ _ fun _ member => (mem_escape member).1,
            List.nil_append, ih formed.2 _ (Or.inr formed.1.2), flush_escape formed.1.1]
          rfl
      | open_ name attributes =>
          simp only [proper, Bool.and_eq_true] at formed
          have shape : (Piece.open_ name attributes :: rest).flatMap Piece.render =
              '<' :: (name ++ attributes.flatMap Piece.renderAttribute ++ '>' :: rest.flatMap Piece.render) := by
            simp [Piece.render]
          rw [shape, tokensFrom_flush, tokensFrom_open formed.1.1 (List.all_eq_true.mp formed.1.2), later formed.2]
          cases flush raw <;> rfl
      | close name =>
          simp only [proper, Bool.and_eq_true] at formed
          have shape : (Piece.close name :: rest).flatMap Piece.render =
              '<' :: '/' :: (name ++ '>' :: rest.flatMap Piece.render) := by
            simp [Piece.render]
          rw [shape, tokensFrom_flush, tokensFrom_close formed.1, later formed.2]
          cases flush raw <;> rfl

end Runs

/-- A proper document is read back, whatever is in its texts and attributes. -/
theorem tokenise_render {pieces : List Piece} (formed : proper pieces = true) :
    tokenise (pieces.flatMap Piece.render) = some (pieces.map Piece.token) := by
  rw [tokenise, tokensFrom_pieces pieces formed [] (Or.inl rfl)]
  simp [flush]

end Kurul.Encoding.Html
