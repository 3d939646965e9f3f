import Mathlib

/-!
# Texts that determine what they encode

Two texts are compared in front of whatever follows them. A text splits off when equal
continuations force equal encoded values and equal rests; what follows may have to begin with a
stop symbol. Words, concatenations and separated lists are built from texts that split off.
-/
namespace Encoding

variable {α α' β : Type}

/-- The rest is empty or begins with a stop symbol. -/
def Stops (stop : β → Prop) (rest : List β) : Prop := ∀ b ∈ rest.head?, stop b

@[simp] theorem stops_nil (stop : β → Prop) : Stops stop [] := fun _ member => absurd member nofun

@[simp] theorem stops_cons (stop : β → Prop) (b : β) (rest : List β) :
    Stops stop (b :: rest) ↔ stop b := by
  simp [Stops]

/-- In front of stops, the two texts agree only when `P` holds and the same text follows. -/
def Splits (stop : β → Prop) (text text' : List β) (P : Prop) : Prop :=
  ∀ rest rest', Stops stop rest → Stops stop rest' → text ++ rest = text' ++ rest' →
    P ∧ rest = rest'

/-- The text needs no stop: any rest may follow. -/
abbrev Delimited (text text' : List β) (P : Prop) : Prop := Splits (fun _ => True) text text' P

variable {stop : β → Prop} {text text' : List β} {P Q : Prop}

/-- A text that needs no stop may be followed by one. -/
theorem Delimited.splits (delimited : Delimited text text' P) : Splits stop text text' P :=
  fun rest rest' _ _ same =>
    delimited rest rest' (fun _ _ => trivial) (fun _ _ => trivial) same

/-- A weaker conclusion. -/
theorem Splits.mono (splits : Splits stop text text' P) (weaker : P → Q) :
    Splits stop text text' Q := fun rest rest' stops stops' same =>
  (splits rest rest' stops stops' same).imp_left weaker

/-- Two whole texts are equal only when what they encode is. -/
theorem Splits.whole (splits : Splits stop text text' P) (same : text = text') : P :=
  (splits [] [] (stops_nil _) (stops_nil _) (by rw [same])).1

/-- Equal fixed texts say nothing about what they encode. -/
theorem delimited_refl (text : List β) : Delimited text text True :=
  fun _ _ _ _ same => ⟨trivial, List.append_cancel_left same⟩

/-- A text that needs no stop, followed by one that splits off. -/
theorem Delimited.append {second second' : List β} (first : Delimited text text' P)
    (next : P → Splits stop second second' Q) :
    Splits stop (text ++ second) (text' ++ second') (P ∧ Q) := by
  intro rest rest' stops stops' same
  rw [List.append_assoc, List.append_assoc] at same
  obtain ⟨p, same⟩ := first _ _ (fun _ _ => trivial) (fun _ _ => trivial) same
  obtain ⟨q, same⟩ := next p rest rest' stops stops' same
  exact ⟨⟨p, q⟩, same⟩

/-- Two texts that begin with different symbols never agree. -/
theorem splits_of_heads {a b : β} {tail tail' : List β} (differ : a ≠ b) :
    Splits stop (a :: tail) (b :: tail') P :=
  fun _ _ _ _ same => absurd (List.cons.inj same).1 differ

/-- Words of symbols that are not stops are equal. -/
theorem splits_word {word : β → Prop} (symbols : ∀ b ∈ text, word b)
    (symbols' : ∀ b ∈ text', word b) (ends : ∀ b, stop b → ¬word b) :
    Splits stop text text' (text = text') := by
  intro rest rest' stops stops' same
  have stopped : ∀ {b : β} {tail rest : List β}, Stops stop rest → rest = b :: tail → ¬word b :=
    fun stops split => ends _ (stops _ (by rw [split]; rfl))
  induction text generalizing text' with
  | nil =>
    cases text' with
    | nil => exact ⟨rfl, same⟩
    | cons b tail =>
      exact absurd (symbols' b List.mem_cons_self) (stopped stops same)
  | cons a text ih =>
    cases text' with
    | nil => exact absurd (symbols a List.mem_cons_self) (stopped stops' same.symm)
    | cons b tail =>
      rw [List.cons_append, List.cons_append] at same
      obtain ⟨rfl, tails⟩ := List.cons.inj same
      obtain ⟨equal, rests⟩ := ih (fun b member => symbols b (List.mem_cons_of_mem _ member))
        (fun b member => symbols' b (List.mem_cons_of_mem _ member)) tails
      exact ⟨congrArg (a :: ·) equal, rests⟩

/-! ## Separated lists -/

section Lists

variable {separator close : β} {write : α → List β} {write' : α' → List β} {R : α → α' → Prop}

/-- The text of the items after the first, up to the closing symbol. -/
def following (separator : β) (write : α → List β) (items : List α) (rest : List β) : List β :=
  match items with
  | [] => rest
  | item :: items => separator :: (write item ++ following separator write items rest)

/-- A separated list is its first item and those that follow. -/
theorem intercalate_cons (first : α) (items : List α) (rest : List β) :
    [separator].intercalate ((first :: items).map write) ++ rest =
      write first ++ following separator write items rest := by
  induction items generalizing first with
  | nil => simp [following]
  | cons second items ih =>
    rw [List.map_cons, List.map_cons, List.intercalate_cons_cons, List.append_assoc,
      List.append_assoc, ← List.map_cons, ih]
    rfl

/-- What follows an item begins with the separator or the closing symbol. -/
theorem stops_following (separates : stop separator) (closes : stop close) (items : List α)
    (rest : List β) : Stops stop (following separator write items (close :: rest)) := by
  cases items with
  | nil => simpa [following]
  | cons item items => simpa [following]

/-- Two lists of items agree in front of their closing symbols only when their items do. -/
theorem following_splits (separates : stop separator) (closes : stop close)
    (differ : separator ≠ close) {items : List α} {items' : List α'}
    (each : ∀ a ∈ items, ∀ b ∈ items', Splits stop (write a) (write' b) (R a b))
    {rest rest' : List β}
    (same : following separator write items (close :: rest) =
      following separator write' items' (close :: rest')) :
    List.Forall₂ R items items' ∧ rest = rest' := by
  induction items generalizing items' with
  | nil =>
    cases items' with
    | nil => exact ⟨.nil, (List.cons.inj same).2⟩
    | cons b items' => exact absurd (List.cons.inj same).1.symm differ
  | cons a items ih =>
    cases items' with
    | nil => exact absurd (List.cons.inj same).1 differ
    | cons b items' =>
      obtain ⟨related, same⟩ := each a List.mem_cons_self b List.mem_cons_self _ _
        (stops_following separates closes _ _) (stops_following separates closes _ _)
        (List.cons.inj same).2
      obtain ⟨all, rests⟩ := ih (fun a member b member' => each a (List.mem_cons_of_mem _ member)
        b (List.mem_cons_of_mem _ member')) same
      exact ⟨.cons related all, rests⟩

/-- A closed list of separated items splits off when each item does and no item begins with the
closing symbol. -/
theorem delimited_list (separator close : β) (separates : stop separator) (closes : stop close)
    (differ : separator ≠ close) {items : List α} {items' : List α'}
    (each : ∀ a ∈ items, ∀ b ∈ items', Splits stop (write a) (write' b) (R a b))
    (opens : ∀ a ∈ items, ∃ b tail, write a = b :: tail ∧ b ≠ close)
    (opens' : ∀ a ∈ items', ∃ b tail, write' a = b :: tail ∧ b ≠ close) :
    Delimited ([separator].intercalate (items.map write) ++ [close])
      ([separator].intercalate (items'.map write') ++ [close]) (List.Forall₂ R items items') := by
  intro rest rest' _ _ same
  simp only [List.append_assoc, List.singleton_append] at same
  cases items with
  | nil =>
    cases items' with
    | nil => exact ⟨.nil, (List.cons.inj same).2⟩
    | cons b items' =>
      obtain ⟨head, tail, starts, other⟩ := opens' b List.mem_cons_self
      rw [intercalate_cons, starts] at same
      exact absurd (List.cons.inj same).1.symm other
  | cons a items =>
    cases items' with
    | nil =>
      obtain ⟨head, tail, starts, other⟩ := opens a List.mem_cons_self
      rw [intercalate_cons, starts] at same
      exact absurd (List.cons.inj same).1 other
    | cons b items' =>
      rw [intercalate_cons, intercalate_cons] at same
      obtain ⟨related, same⟩ := each a List.mem_cons_self b List.mem_cons_self _ _
        (stops_following separates closes _ _) (stops_following separates closes _ _) same
      obtain ⟨all, rests⟩ := following_splits separates closes differ
        (fun a member b member' => each a (List.mem_cons_of_mem _ member) b
          (List.mem_cons_of_mem _ member')) same
      exact ⟨.cons related all, rests⟩

end Lists

/-- The length of items joined by one separator. -/
theorem length_intercalate {α : Type} (separator : α) (items : List (List α)) :
    ([separator].intercalate items).length =
      (items.map List.length).sum + (items.length - 1) := by
  induction items with
  | nil => rfl
  | cons first rest ih =>
    cases rest with
    | nil => simp
    | cons second rest =>
      rw [List.intercalate_cons_cons, List.length_append, List.length_append, ih]
      simp only [List.map_cons, List.sum_cons, List.length_cons, List.length_nil]
      omega

end Encoding
