import Stencil.Proofs.NumberTexts
import Stencil.Value.Text

/-! # Texts of maps of integers

The keys of a map stand in its text as they are, so that a quote in a key is not told apart from
the quote that ends it. Each entry runs together with the one behind it, and the text is that of a
single entry, `IntegerMap.joined?`, which it determines. Maps whose keys hold no quote in front of a
colon and a blank are told apart by their texts; a map is told apart from all other ones only if it
is empty, or has one entry whose key cannot be cut into an entry and a larger key:
`IntegerMap.determined_by_toText`.
-/

namespace Stencil

section Marks

variable {α : Type} {a : α} {front front' back back' : List α}

/-- A list is cut in one way at the first place of an element. -/
private theorem eq_of_first (absent : a ∉ front) (absent' : a ∉ front')
    (same : front ++ a :: back = front' ++ a :: back') : front = front' ∧ back = back' := by
  rcases List.append_eq_append_iff.mp same with ⟨between, rfl, rest⟩ | ⟨between, rfl, rest⟩
  · cases between with
    | nil =>
      cases rest
      exact ⟨(List.append_nil _).symm, rfl⟩
    | cons first between =>
      cases rest
      simp at absent'
  · cases between with
    | nil =>
      cases rest
      exact ⟨List.append_nil _, rfl⟩
    | cons first between =>
      cases rest
      simp at absent

/-- A list is cut in one way at the last place of an element. -/
private theorem eq_of_last (absent : a ∉ back) (absent' : a ∉ back')
    (same : front ++ a :: back = front' ++ a :: back') : front = front' ∧ back = back' := by
  have reversed := congrArg List.reverse same
  simp only [List.reverse_append, List.reverse_cons, List.append_assoc, List.singleton_append]
    at reversed
  have cut := eq_of_first (mt List.mem_reverse.mp absent) (mt List.mem_reverse.mp absent') reversed
  exact ⟨List.reverse_injective cut.2, List.reverse_injective cut.1⟩

end Marks

/-- What stands behind a key. -/
def keyEnd : List Char :=
  ['\'', ':', ' ']

private theorem prefix_of_keyEnd_append {between back back' : List Char}
    (same : keyEnd ++ back = between ++ (keyEnd ++ back')) : between = [] ∨ keyEnd <+: between := by
  match between with
  | [] => exact .inl rfl
  | [_] => simp [keyEnd] at same
  | [_, _] => simp [keyEnd] at same
  | _ :: _ :: _ :: between =>
    simp only [keyEnd, List.cons_append, List.cons.injEq] at same
    obtain ⟨rfl, rfl, rfl, -⟩ := same
    exact .inr (List.prefix_append keyEnd between)

/-- A text is cut in one way at the first end of a key. -/
private theorem eq_of_keyEnd {front front' back back' : List Char} (absent : ¬keyEnd <:+: front)
    (absent' : ¬keyEnd <:+: front')
    (same : front ++ (keyEnd ++ back) = front' ++ (keyEnd ++ back')) :
    front = front' ∧ back = back' := by
  have equal : front = front' := by
    rcases List.append_eq_append_iff.mp same with ⟨between, rfl, rest⟩ | ⟨between, rfl, rest⟩
    · rcases prefix_of_keyEnd_append rest with rfl | inside
      · exact (List.append_nil _).symm
      · exact (absent' (inside.isInfix.trans (List.suffix_append _ _).isInfix)).elim
    · rcases prefix_of_keyEnd_append rest with rfl | inside
      · exact List.append_nil _
      · exact (absent (inside.isInfix.trans (List.suffix_append _ _).isInfix)).elim
  subst equal
  exact ⟨rfl, List.append_cancel_left (List.append_cancel_left same)⟩

namespace Decimal

private theorem mem_integerText {n : Int} {c : Char} (member : c ∈ (integerText n).toList) :
    c = '-' ∨ c.isDigit = true := by
  rw [integerText, String.toList_ofList] at member
  split at member
  · rcases List.mem_cons.mp member with sign | digit
    · exact .inl sign
    · exact .inr (isDigit_of_mem_digits _ c digit)
  · exact .inr (isDigit_of_mem_digits _ c member)

private theorem notMem_integerText {c : Char} (noSign : c ≠ '-') (noDigit : c.isDigit = false)
    (n : Int) : c ∉ (integerText n).toList := by
  intro member
  rcases mem_integerText member with sign | digit
  · exact noSign sign
  · rw [noDigit] at digit
    cases digit

private theorem digits_injective {m n : Nat} (same : digits m = digits n) : m = n := by
  rw [← numberOf_digits m, same, numberOf_digits]

private theorem integerText_injective {m n : Int} (same : integerText m = integerText n) :
    m = n := by
  have signless (k : Nat) (rest : List Char) : digits k ≠ '-' :: rest := by
    intro signed
    have digit := isDigit_of_mem_digits k '-' (signed ▸ List.mem_cons_self)
    cases digit
  have lists := String.ofList_injective same
  split at lists <;> split at lists
  · have sizes := digits_injective (List.cons.inj lists).2
    omega
  · exact (signless _ _ lists.symm).elim
  · exact (signless _ _ lists).elim
  · have sizes := digits_injective lists
    omega

end Decimal

open Decimal

/-- A map whose values are integers, its entries in ascending order of the keys. -/
@[ext]
structure IntegerMap where
  entries : List (String × Int64)
  ascending : (entries.map Prod.fst).Pairwise (· < ·)

namespace IntegerMap

/-- The map as a value. -/
def value (map : IntegerMap) : Value :=
  .map (map.entries.map fun entry => (entry.1, .int entry.2))

private theorem value_injective {left right : IntegerMap} (same : left.value = right.value) :
    left = right := by
  have pairs : Function.Injective fun entry : String × Int64 => (entry.1, Value.int entry.2) := by
    intro entry entry' equal
    obtain ⟨key, integer⟩ := Prod.mk.inj equal
    exact Prod.ext key (Value.int.inj integer)
  exact IntegerMap.ext (List.map_injective_iff.mpr pairs (Value.map.inj same))

/-- The text of one entry. -/
def entryText (entry : String × Int64) : String :=
  "'" ++ entry.1 ++ "': " ++ integerText entry.2.toInt

/-- What stands between a key with the given integer and the key of the next entry. -/
def separator (n : Int64) : String :=
  "': " ++ integerText n.toInt ++ ", '"

/-- The entry whose text is that of an entry and the ones behind it. -/
def joinedFrom (entry : String × Int64) : List (String × Int64) → String × Int64
  | [] => entry
  | next :: rest =>
    (entry.1 ++ separator entry.2 ++ (joinedFrom next rest).1, (joinedFrom next rest).2)

/-- The entry whose text is that of all entries of a map. -/
def joined? (map : IntegerMap) : Option (String × Int64) :=
  match map.entries with
  | [] => none
  | entry :: rest => some (joinedFrom entry rest)

private theorem toList_entryText (entry : String × Int64) : (entryText entry).toList =
    ('\'' :: entry.1.toList) ++ '\'' :: ':' :: ' ' :: (integerText entry.2.toInt).toList := by
  simp [entryText]

private theorem toList_separator (n : Int64) :
    (separator n).toList = keyEnd ++ ((integerText n.toInt).toList ++ [',', ' ', '\'']) := by
  simp [separator, keyEnd]

private theorem entryText_injective {entry entry' : String × Int64}
    (same : entryText entry = entryText entry') : entry = entry' := by
  have noQuote (n : Int) : '\'' ∉ ':' :: ' ' :: (integerText n).toList := by
    simp [notMem_integerText (c := '\'') (by decide) (by decide) n]
  have lists := congrArg String.toList same
  rw [toList_entryText, toList_entryText] at lists
  obtain ⟨keys, integers⟩ := eq_of_last (noQuote _) (noQuote _) lists
  have texts : integerText entry.2.toInt = integerText entry'.2.toInt :=
    String.toList_inj.mp ((List.append_right_inj [':', ' ']).mp integers)
  exact Prod.ext (String.toList_inj.mp (List.cons.inj keys).2)
    (Int64.toInt_inj.mp (integerText_injective texts))

private theorem entryText_ne_empty (entry : String × Int64) : entryText entry ≠ "" := by
  rw [Ne, ← String.toList_inj, toList_entryText]
  nofun

/-- The texts of entries run together. -/
private theorem entryText_joinedFrom (entry next : String × Int64) (rest : List (String × Int64)) :
    entryText (joinedFrom entry (next :: rest)) =
      entryText entry ++ ", " ++ entryText (joinedFrom next rest) := by
  rw [← String.toList_inj]
  simp [joinedFrom, entryText, separator]

private theorem intercalate_entryTexts (entry : String × Int64) (rest : List (String × Int64)) :
    ", ".intercalate (Value.entryTexts ((entry :: rest).map fun e => (e.1, .int e.2))) =
      entryText (joinedFrom entry rest) := by
  induction rest generalizing entry with
  | nil => rfl
  | cons next rest ih =>
    rw [entryText_joinedFrom, ← ih next, List.map_cons, Value.entryTexts]
    exact String.intercalate_cons_of_ne_nil nofun

private theorem toText_value (map : IntegerMap) :
    map.value.toText = "\x7b" ++ map.joined?.elim "" entryText ++ "\x7d" := by
  rw [value, Value.toText, joined?]
  cases map.entries with
  | nil => rfl
  | cons entry rest => rw [intercalate_entryTexts, Option.elim_some]

/-- The text of a map is that of its joined entry and determines it. -/
theorem toText_eq_iff_joined? {left right : IntegerMap} :
    left.value.toText = right.value.toText ↔ left.joined? = right.joined? := by
  rw [toText_value, toText_value, String.append_left_inj, String.append_right_inj]
  constructor
  · intro same
    match hl : left.joined?, hr : right.joined? with
    | none, none => rfl
    | none, some entry =>
      rw [hl, hr] at same
      exact (entryText_ne_empty entry same.symm).elim
    | some entry, none =>
      rw [hl, hr] at same
      exact (entryText_ne_empty entry same).elim
    | some entry, some entry' =>
      rw [hl, hr] at same
      rw [entryText_injective same]
  · intro same
    rw [same]

private theorem joined?_eq_none {map : IntegerMap} : map.joined? = none ↔ map.entries = [] := by
  rw [joined?]
  cases map.entries <;> simp

private theorem toList_joinedFrom_cons (entry next : String × Int64)
    (rest : List (String × Int64)) :
    (joinedFrom entry (next :: rest)).1.toList = entry.1.toList ++
      (keyEnd ++ ((integerText entry.2.toInt).toList ++
        ',' :: ' ' :: '\'' :: (joinedFrom next rest).1.toList)) := by
  simp [joinedFrom, toList_separator]

/-- Whether no key holds what stands behind a key. -/
def HasPlainKeys (entries : List (String × Int64)) : Prop :=
  ∀ entry ∈ entries, ¬keyEnd <:+: entry.1.toList

/-- A plain key is not the joined key of several entries. -/
private theorem joinedFrom_cons_ne {entry next : String × Int64} {rest : List (String × Int64)}
    {other : String × Int64} (plain : ¬keyEnd <:+: other.1.toList) :
    joinedFrom entry (next :: rest) ≠ other := by
  rintro rfl
  rw [toList_joinedFrom_cons] at plain
  exact plain ⟨_, _, (List.append_assoc _ _ _)⟩

private theorem joinedFrom_injective {entry entry' : String × Int64}
    {rest rest' : List (String × Int64)}
    (plain : HasPlainKeys (entry :: rest)) (plain' : HasPlainKeys (entry' :: rest'))
    (same : joinedFrom entry rest = joinedFrom entry' rest') : entry :: rest = entry' :: rest' := by
  induction rest generalizing entry entry' rest' with
  | nil =>
    cases rest' with
    | nil => exact congrArg (· :: []) same
    | cons next' rest' =>
      exact (joinedFrom_cons_ne (plain _ List.mem_cons_self) same.symm).elim
  | cons next rest ih =>
    cases rest' with
    | nil => exact (joinedFrom_cons_ne (plain' _ List.mem_cons_self) same).elim
    | cons next' rest' =>
      have noComma (n : Int) : ',' ∉ (integerText n).toList :=
        notMem_integerText (by decide) (by decide) n
      have lists := congrArg (String.toList ∘ Prod.fst) same
      simp only [Function.comp_apply, toList_joinedFrom_cons] at lists
      obtain ⟨keys, lists⟩ := eq_of_keyEnd (plain _ List.mem_cons_self)
        (plain' _ List.mem_cons_self) lists
      obtain ⟨integers, lists⟩ := eq_of_first (noComma _) (noComma _) lists
      have joined : joinedFrom next rest = joinedFrom next' rest' :=
        Prod.ext (String.toList_inj.mp ((List.append_right_inj [' ', '\'']).mp lists))
          (congrArg Prod.snd same :)
      have first : entry = entry' := Prod.ext (String.toList_inj.mp keys)
        (Int64.toInt_inj.mp (integerText_injective (String.toList_inj.mp integers)))
      rw [first, ih (fun e member => plain e (List.mem_cons_of_mem _ member))
        (fun e member => plain' e (List.mem_cons_of_mem _ member)) joined]

private theorem eq_of_joined? {left right : IntegerMap} (plain : HasPlainKeys left.entries)
    (plain' : HasPlainKeys right.entries) (same : left.joined? = right.joined?) : left = right := by
  apply IntegerMap.ext
  match hl : left.entries, hr : right.entries with
  | [], [] => rfl
  | [], _ :: _ => rw [joined?_eq_none.mpr hl, joined?, hr] at same; cases same
  | _ :: _, [] => rw [joined?_eq_none.mpr hr, joined?, hl] at same; cases same
  | entry :: rest, entry' :: rest' =>
    rw [hl] at plain
    rw [hr] at plain'
    rw [joined?, joined?, hl, hr] at same
    exact joinedFrom_injective plain plain' (Option.some.inj same)

/-- Whether a key can be cut into a key, the integer and the end of its entry, and a larger key. -/
def Splits (key : String) : Prop :=
  ∃ first n second, key = first ++ separator n ++ second ∧ first < second

/-- The map of one entry. -/
def single (entry : String × Int64) : IntegerMap where
  entries := [entry]
  ascending := List.pairwise_singleton _ _

/-- The map of two entries. -/
def pair (first second : String) (m n : Int64) (less : first < second) : IntegerMap where
  entries := [(first, m), (second, n)]
  ascending := List.pairwise_pair.mpr less

private theorem splits_joinedFrom {entry next : String × Int64} {rest : List (String × Int64)}
    (less : entry.1 < next.1) : Splits (joinedFrom entry (next :: rest)).1 := by
  refine ⟨entry.1, entry.2, (joinedFrom next rest).1, rfl, ?_⟩
  cases rest with
  | nil => exact less
  | cons other rest =>
    rw [String.lt_iff_toList_lt, toList_joinedFrom_cons]
    exact List.Lex.append_right _ _ less

private theorem unique_single_iff (entry : String × Int64) :
    (∀ other : IntegerMap, other.joined? = (single entry).joined? → other = single entry) ↔
      ¬Splits entry.1 := by
  constructor
  · rintro unique ⟨first, n, second, split, less⟩
    have same : (pair first second n entry.2 less).joined? = (single entry).joined? :=
      congrArg some (Prod.ext split.symm rfl)
    have lengths := congrArg (List.length ∘ IntegerMap.entries) (unique _ same)
    cases lengths
  · intro whole other same
    match entries : other.entries with
    | [] =>
      rw [joined?_eq_none.mpr entries] at same
      cases same
    | [_] =>
      rw [joined?, entries] at same
      cases same
      exact IntegerMap.ext entries
    | first :: next :: rest =>
      rw [joined?, entries] at same
      have ascending := entries ▸ other.ascending
      have less := (List.pairwise_cons.mp ascending).1 next.1 List.mem_cons_self
      cases same
      exact (whole (splits_joinedFrom less)).elim

/-- A map is the only one with its joined entry if it is empty, or has one entry whose key does not
split, and not otherwise. -/
theorem unique_iff (map : IntegerMap) :
    (∀ other : IntegerMap, other.joined? = map.joined? → other = map) ↔
      map.entries = [] ∨ ∃ entry, map.entries = [entry] ∧ ¬Splits entry.1 := by
  match entries : map.entries with
  | [] =>
    refine iff_of_true (fun other same => ?_) (.inl rfl)
    rw [joined?_eq_none.mpr entries, joined?_eq_none] at same
    exact IntegerMap.ext (same.trans entries.symm)
  | [entry] =>
    have isSingle : map = single entry := IntegerMap.ext entries
    rw [isSingle, unique_single_iff]
    simp
  | entry :: next :: rest =>
    refine iff_of_false (fun unique => ?_) (by simp)
    have same : (single (joinedFrom entry (next :: rest))).joined? = map.joined? := by
      rw [joined?, joined?, entries]
      rfl
    have lengths := congrArg (List.length ∘ IntegerMap.entries) (unique _ same)
    simp [single, entries] at lengths

/-- Two maps of integers have the same text exactly if they have the same joined entry. So maps with
plain keys are told apart by their texts, and a map is told apart from all others exactly if it is
empty or has one entry whose key does not split. -/
theorem determined_by_toText (left right : IntegerMap) :
    (left.value.toText = right.value.toText ↔ left.joined? = right.joined?) ∧
      (HasPlainKeys left.entries → HasPlainKeys right.entries →
        left.value.toText = right.value.toText → left.value = right.value) ∧
      ((∀ other : IntegerMap, other.value.toText = left.value.toText → other.value = left.value) ↔
        left.entries = [] ∨ ∃ entry, left.entries = [entry] ∧ ¬Splits entry.1) := by
  refine ⟨toText_eq_iff_joined?, ?_, ?_⟩
  · intro plain plain' same
    rw [eq_of_joined? plain plain' (toText_eq_iff_joined?.mp same)]
  · rw [← unique_iff]
    constructor
    · intro unique other same
      exact value_injective (unique other (toText_eq_iff_joined?.mpr same))
    · intro unique other same
      rw [unique other (toText_eq_iff_joined?.mp same)]

/-- Two different maps of integers may have the same text. -/
theorem not_eq_of_toText_eq :
    ¬∀ left right : IntegerMap,
      left.value.toText = right.value.toText → left.value = right.value := by
  intro determined
  have same := determined (pair "a" "b" 1 2 (by decide)) (single ("a': 1, 'b", 2))
    (by decide +kernel)
  cases congrArg (List.length ∘ IntegerMap.entries) (value_injective same)

end IntegerMap

end Stencil
