import FieldGraph.Library.Fingerprint
import FieldGraph.Proofs.Decimal.Text
import FieldGraph.Proofs.Text.Quoted

/-! # Texts of nested items

Fingerprints are taken of texts that are made of items: words such as numbers, quoted texts,
definitions, and tuples of items. An item ends where it seems to end, whatever follows it. So tuples
with the same text have the same items, and so have rows of tuples that are written one behind the
other.
-/

namespace FieldGraph

open List Option

theorem Kind.name_injective : Function.Injective Kind.name := by
  have found (kind : Kind) : Kind.all.find? (fun other => other.name == kind.name) = some kind := by
    cases kind with
    | input c => cases c <;> rfl
    | operation op => cases op <;> rfl
    | _ => rfl
  intro first second same
  rw [← some.injEq, ← found, ← found, same]

theorem Kind.name_ne_colon (kind : Kind) : ∀ c ∈ kind.name.toList, (c != ':') = true := by
  rw [← List.all_eq_true]
  cases kind with
  | input c => cases c <;> rfl
  | operation op => cases op <;> rfl
  | _ => rfl

namespace Text

/-- The characters of words: those of numbers, and the letters of `None`. -/
def isWordChar (c : Char) : Bool := Decimal.isNumeral c || ['i', 'n', 'f', 'a', 'N', 'o'].contains c

/-- A text that is made of items. -/
inductive Item : String → Prop where
  | word {text : String} (nonempty : text.toList ≠ [])
      (letters : ∀ c ∈ text.toList, isWordChar c = true) : Item text
  | quoted (text : String) : Item (quoted text)
  | definition (defn : Definition) : Item defn.quote
  | tuple {items : List String} (each : ∀ item ∈ items, Item item) : Item (tuple items)

/-- What can follow an item: nothing, a comma, a parenthesis. -/
def Stops (rest : List Char) : Prop := ∀ c ∈ rest.head?, c = ',' ∨ c = ')' ∨ c = '('

variable {rest rest' : List Char} {first second : List String}

theorem Stops.not_isWordChar (stops : Stops rest) : rest.takeWhile isWordChar = [] := by
  cases rest with
  | nil => rfl
  | cons c rest =>
    have delimiter := stops c rfl
    rw [takeWhile_cons_of_neg]
    rcases delimiter with rfl | rfl | rfl <;> decide

/-! ## First characters -/

/-- What the first character of an item tells of it. -/
def sort (c : Char) : Nat :=
  if isWordChar c then 0 else if c = '\x27' ∨ c = '"' then 1 else if c = 'P' then 2
  else if c = '(' then 3 else 4

/-- The sort of the item that a text starts with. -/
def sort? (text : List Char) : Option Nat := text.head?.map sort

theorem sort?_word {text : String} (nonempty : text.toList ≠ [])
    (letters : ∀ c ∈ text.toList, isWordChar c = true) (rest : List Char) :
    sort? (text.toList ++ rest) = some 0 := by
  obtain ⟨c, others, shape⟩ := exists_cons_of_ne_nil nonempty
  rw [sort?, shape, cons_append, head?_cons, map_some, sort,
    if_pos (letters c (shape ▸ mem_cons_self))]

theorem sort?_quoted (text : String) (rest : List Char) :
    sort? ((quoted text).toList ++ rest) = some 1 := by
  rw [toList_quoted, cons_append, sort?, head?_cons]
  rcases isQuote_quoteFor text with same | same
  · rw [same]
    decide
  · rw [same]
    decide

theorem toList_quote (defn : Definition) : defn.quote.toList =
    "PortDefinition(type_id=<NodeTypeID.".toList ++ (defn.kind.name.toList ++
      (": ".toList ++ ((toString defn.kind.number).toList ++
        (">, name=".toList ++ ((quoted defn.name).toList ++ ")".toList))))) := by
  unfold Definition.quote
  rw [String.toList_append, String.toList_append, String.toList_append, String.toList_append,
    String.toList_append, String.toList_append, append_assoc, append_assoc,
    append_assoc, append_assoc, append_assoc]

theorem sort?_definition (defn : Definition) (rest : List Char) :
    sort? (defn.quote.toList ++ rest) = some 2 := by
  have first : (defn.quote.toList ++ rest).head? = some 'P' := by simp [toList_quote]
  rw [sort?, first]
  decide

/-! ## Tuples -/

/-- What follows an item of a tuple: the other items, and the end. -/
def closing : List String → List Char
  | [] => [')']
  | item :: items => ',' :: ' ' :: (item.toList ++ closing items)

theorem toList_intercalate_closing (item : String) (items : List String) :
    (", ".intercalate (item :: items) ++ ")").toList = item.toList ++ closing items := by
  induction items generalizing item with
  | nil => simp [closing]
  | cons next items ih =>
    have later := ih next
    rw [String.toList_append, String.toList_intercalate, map_cons] at later
    rw [String.toList_append, String.toList_intercalate, map_cons, map_cons,
      intercalate_cons_cons, append_assoc, later]
    simp [closing]

theorem toList_tuple_nil : (tuple []).toList = ['(', ')'] := by decide

/-- What follows the first item of a tuple. One alone keeps a comma. -/
def behindFirst : List String → List Char
  | [] => [',', ')']
  | item :: items => closing (item :: items)

theorem toList_tuple_cons (item : String) (items : List String) :
    (tuple (item :: items)).toList = '(' :: (item.toList ++ behindFirst items) := by
  cases items with
  | nil => simp [tuple, behindFirst]
  | cons next items =>
    rw [behindFirst, ← toList_intercalate_closing]
    simp [tuple]

theorem sort?_tuple (items : List String) (rest : List Char) :
    sort? ((tuple items).toList ++ rest) = some 3 := by
  have first : ((tuple items).toList ++ rest).head? = some '(' := by
    cases items with
    | nil => rw [toList_tuple_nil]; rfl
    | cons item items => rw [toList_tuple_cons]; rfl
  rw [sort?, first]
  decide

theorem Item.ne_end {text : String} (item : Item text) (rest behind : List Char) :
    text.toList ++ rest ≠ ')' :: behind := by
  intro same
  have last : sort? (text.toList ++ rest) = some 4 := by
    rw [same]
    rfl
  cases item with
  | word nonempty letters => rw [sort?_word nonempty letters] at last; cases last
  | quoted text => rw [sort?_quoted] at last; cases last
  | definition defn => rw [sort?_definition] at last; cases last
  | tuple each => rw [sort?_tuple] at last; cases last

/-- An item can be told from every other, whatever follows. -/
def Distinguished (first : String) : Prop :=
  ∀ second rest rest', Item second → Stops rest → Stops rest' →
    first.toList ++ rest = second.toList ++ rest' → first = second ∧ rest = rest'

theorem stops_closing (items : List String) (rest : List Char) : Stops (closing items ++ rest) := by
  intro c first
  cases items with
  | nil => exact .inr (.inl (some.inj first).symm)
  | cons item items => exact .inl (some.inj first).symm

theorem closing_append_inj
    (each : ∀ item ∈ first, Distinguished item) (each' : ∀ item ∈ second, Item item)
    (same : closing first ++ rest = closing second ++ rest') : first = second ∧ rest = rest' := by
  induction first generalizing second with
  | nil =>
    cases second with
    | nil => exact ⟨rfl, (cons.inj same).2⟩
    | cons other second => exact absurd (cons.inj same).1 (by decide)
  | cons item first ih =>
    cases second with
    | nil => exact absurd (cons.inj same).1 (by decide)
    | cons other second =>
      simp only [closing, cons_append, append_assoc, cons.injEq, true_and] at same
      obtain ⟨equal, behind⟩ := each item mem_cons_self other _ _
        (each' other mem_cons_self) (stops_closing _ _) (stops_closing _ _) same
      obtain ⟨others, behind⟩ := ih (fun item mem => each item (mem_cons_of_mem _ mem))
        (fun item mem => each' item (mem_cons_of_mem _ mem)) behind
      exact ⟨by rw [equal, others], behind⟩

theorem stops_behindFirst (items : List String) (rest : List Char) :
    Stops (behindFirst items ++ rest) := by
  cases items with
  | nil => exact fun c first => .inl (some.inj first).symm
  | cons item items => exact stops_closing _ _

theorem behindFirst_append_inj
    (each : ∀ item ∈ first, Distinguished item) (each' : ∀ item ∈ second, Item item)
    (same : behindFirst first ++ rest = behindFirst second ++ rest') :
    first = second ∧ rest = rest' := by
  cases first with
  | nil =>
    cases second with
    | nil => exact ⟨rfl, append_cancel_left same⟩
    | cons other second => exact absurd (cons.inj (cons.inj same).2).1 (by decide)
  | cons item first =>
    cases second with
    | nil => exact absurd (cons.inj (cons.inj same).2).1 (by decide)
    | cons other second => exact closing_append_inj each each' same

theorem tuple_append_inj
    (items : ∀ item ∈ first, Item item) (each : ∀ item ∈ first, Distinguished item)
    (items' : ∀ item ∈ second, Item item)
    (same : (tuple first).toList ++ rest = (tuple second).toList ++ rest') :
    first = second ∧ rest = rest' := by
  cases first with
  | nil =>
    cases second with
    | nil => exact ⟨rfl, append_cancel_left same⟩
    | cons other second =>
      simp only [toList_tuple_nil, toList_tuple_cons, cons_append, append_assoc,
        cons.injEq, true_and] at same
      exact ((items' other mem_cons_self).ne_end _ _ same.symm).elim
  | cons item first =>
    cases second with
    | nil =>
      simp only [toList_tuple_nil, toList_tuple_cons, cons_append, append_assoc,
        cons.injEq, true_and] at same
      exact ((items item mem_cons_self).ne_end _ _ same).elim
    | cons other second =>
      simp only [toList_tuple_cons, cons_append, append_assoc, cons.injEq, true_and] at same
      obtain ⟨equal, behind⟩ := each item mem_cons_self other _ _
        (items' other mem_cons_self) (stops_behindFirst _ _) (stops_behindFirst _ _) same
      obtain ⟨others, behind⟩ := behindFirst_append_inj
        (fun item mem => each item (mem_cons_of_mem _ mem))
        (fun item mem => items' item (mem_cons_of_mem _ mem)) behind
      exact ⟨by rw [equal, others], behind⟩

/-! ## Words and definitions -/

theorem word_append_inj {first second : String} (letters : ∀ c ∈ first.toList, isWordChar c = true)
    (letters' : ∀ c ∈ second.toList, isWordChar c = true) (stops : Stops rest)
    (stops' : Stops rest') (same : first.toList ++ rest = second.toList ++ rest') :
    first = second ∧ rest = rest' := by
  have words := congrArg (List.takeWhile isWordChar) same
  rw [takeWhile_append_of_pos letters, takeWhile_append_of_pos letters',
    stops.not_isWordChar, stops'.not_isWordChar, append_nil, append_nil] at words
  rw [words] at same
  exact ⟨String.toList_inj.mp words, append_cancel_left same⟩

theorem quote_append_inj {first second : Definition}
    (same : first.quote.toList ++ rest = second.quote.toList ++ rest') :
    first = second ∧ rest = rest' := by
  have until_colon (kind : Kind) (text : List Char) :
      (kind.name.toList ++ (": ".toList ++ text)).takeWhile (· != ':') = kind.name.toList := by
    rw [takeWhile_append_of_pos kind.name_ne_colon]
    simp
  rw [toList_quote, toList_quote] at same
  simp only [append_assoc, append_cancel_left_eq] at same
  have kinds : first.kind = second.kind := by
    apply Kind.name_injective
    apply String.toList_inj.mp
    rw [← until_colon, same, until_colon]
  rw [kinds] at same
  simp only [append_cancel_left_eq] at same
  obtain ⟨names, behind⟩ := quoted_append_inj same
  refine ⟨?_, append_cancel_left behind⟩
  cases first
  simp only at kinds names
  rw [kinds, names]

/-- Items can be told from each other. -/
theorem Item.distinguished {first : String} (item : Item first) : Distinguished first := by
  induction item with
  | word nonempty letters =>
    intro second rest rest' other stops stops' same
    have sorted := sort?_word nonempty letters rest
    rw [same] at sorted
    cases other with
    | word _ letters' => exact word_append_inj letters letters' stops stops' same
    | quoted | definition | tuple => simp [sort?_quoted, sort?_definition, sort?_tuple] at sorted
  | quoted text =>
    intro second rest rest' other stops stops' same
    have sorted := sort?_quoted text rest
    rw [same] at sorted
    cases other with
    | word nonempty letters => simp [sort?_word nonempty letters] at sorted
    | quoted text' =>
      obtain ⟨equal, behind⟩ := quoted_append_inj same
      exact ⟨by rw [equal], behind⟩
    | definition | tuple => simp [sort?_definition, sort?_tuple] at sorted
  | definition defn =>
    intro second rest rest' other stops stops' same
    have sorted := sort?_definition defn rest
    rw [same] at sorted
    cases other with
    | word nonempty letters => simp [sort?_word nonempty letters] at sorted
    | definition defn' =>
      obtain ⟨equal, behind⟩ := quote_append_inj same
      exact ⟨by rw [equal], behind⟩
    | quoted | tuple => simp [sort?_quoted, sort?_tuple] at sorted
  | @tuple items each ih =>
    intro second rest rest' other stops stops' same
    have sorted := sort?_tuple items rest
    rw [same] at sorted
    cases other with
    | word nonempty letters => simp [sort?_word nonempty letters] at sorted
    | quoted | definition => simp [sort?_quoted, sort?_definition] at sorted
    | tuple each' =>
      obtain ⟨equal, behind⟩ := tuple_append_inj each ih each' same
      exact ⟨by rw [equal], behind⟩

theorem tuple_inj (items : ∀ item ∈ first, Item item)
    (items' : ∀ item ∈ second, Item item) (same : tuple first = tuple second) : first = second := by
  refine (@tuple_append_inj [] [] first second items
    (fun item mem => (items item mem).distinguished) items' ?_).1
  rw [same]

theorem join_inj {first second : List (List String)}
    (items : ∀ row ∈ first, ∀ item ∈ row, Item item)
    (items' : ∀ row ∈ second, ∀ item ∈ row, Item item)
    (same : String.join (first.map tuple) = String.join (second.map tuple)) : first = second := by
  have texts := congrArg String.toList same
  rw [String.toList_join, String.toList_join] at texts
  clear same
  induction first generalizing second with
  | nil =>
    cases second with
    | nil => rfl
    | cons row second =>
      have sorted := sort?_tuple row ((second.map tuple).flatMap String.toList)
      rw [← flatMap_cons, ← map_cons, ← texts] at sorted
      cases sorted
  | cons row first ih =>
    cases second with
    | nil =>
      have sorted := sort?_tuple row ((first.map tuple).flatMap String.toList)
      rw [← flatMap_cons, ← map_cons, texts] at sorted
      cases sorted
    | cons row' second =>
      have here := items row mem_cons_self
      obtain ⟨equal, behind⟩ := tuple_append_inj here
        (fun item mem => (here item mem).distinguished)
        (items' row' mem_cons_self) texts
      rw [equal, ih (fun row mem => items row (mem_cons_of_mem _ mem))
        (fun row mem => items' row (mem_cons_of_mem _ mem)) behind]

end Text

end FieldGraph
