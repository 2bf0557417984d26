import Stencil.Operator.Meaning
import Stencil.Proofs.IntegerConversion
import Stencil.Proofs.NumberComparison

/-! # The equality of values

Equality is reflexive for the values in which all numbers are numbers, `Value.equal_self`,
symmetric, `Value.equal_symm`, and nearly transitive: a floating point number is equal to all the
integers that are rounded to it, and these are different from each other. By `Value.equal_trans`
nothing else can go wrong, and by the size of such integers it needs more than 53 digits.
-/

namespace Stencil

namespace Number

variable {l m n : Number}

/-- Whether the outer numbers are different integers of more than 53 digits with a floating point
number between them. Such integers can both be rounded to the number between them. -/
def straddles : Number → Number → Number → Bool
  | .int l, .float _, .int n => l ≠ n ∧ 2 ^ 53 ≤ l.toInt.natAbs ∧ 2 ^ 53 ≤ n.toInt.natAbs
  | _, _, _ => false

theorem equal_symm (same : m.equal n = true) : n.equal m = true := by
  rw [equal_iff_order?] at *
  rw [order?_swap m n, same]
  rfl

/-- Only integers with a floating point number between them can be equal to it and not to each
other. -/
theorem equal_trans (first : l.equal m = true) (second : m.equal n = true) :
    l.equal n = !straddles l m n := by
  cases l with
  | int l =>
    cases m with
    | int m =>
      obtain rfl := eq_of_beq first
      cases n <;> exact second
    | float x =>
      have rounded := BEq.trans first second
      cases n with
      | float z => exact rounded
      | int n =>
        rcases eq_or_large_of_toFloat_beq rounded with rfl | large
        · simp [equal, straddles]
        · simp only [equal, straddles, and_iff_left large, ne_eq, decide_not, Bool.not_not]
          rfl
  | float x =>
    cases m with
    | int m =>
      cases n with
      | int n =>
        obtain rfl := eq_of_beq second
        exact first
      | float z => exact BEq.trans first second
    | float y => cases n <;> exact BEq.trans first second

end Number

namespace Value

section SameForm

mutual

/-- Whether a value and all values in it are different from what is not a number. -/
def freeOfNaN : Value → Bool
  | .float x => !x.isNaN
  | .list items => itemsFreeOfNaN items
  | .map entries => entriesFreeOfNaN entries
  | _ => true

/-- Whether all items of a list are free of what is not a number. -/
def itemsFreeOfNaN : List Value → Bool
  | [] => true
  | value :: rest => value.freeOfNaN && itemsFreeOfNaN rest

/-- Whether the values of all entries of a map are free of what is not a number. -/
def entriesFreeOfNaN : List (String × Value) → Bool
  | [] => true
  | (_, value) :: rest => value.freeOfNaN && entriesFreeOfNaN rest

end

mutual

private theorem same_self : ∀ value : Value, value.same value = value.freeOfNaN
  | .null => rfl
  | .bool b => by simp [same, freeOfNaN]
  | .int n => by simp [same, freeOfNaN]
  | .float x => by
    change (x == x) = !x.isNaN
    rw [Bool.eq_iff_iff, Float.beq_self_iff, Float.isNaN_eq_decide_eq_nan]
    simp
  | .str text => by simp [same, freeOfNaN]
  | .list items => by rw [same, freeOfNaN, sameItems_self items]
  | .map entries => by rw [same, freeOfNaN, sameEntries_self entries]

private theorem sameItems_self : ∀ items : List Value, sameItems items items = itemsFreeOfNaN items
  | [] => rfl
  | value :: rest => by rw [sameItems, itemsFreeOfNaN, same_self value, sameItems_self rest]

private theorem sameEntries_self : ∀ entries : List (String × Value),
    sameEntries entries entries = entriesFreeOfNaN entries
  | [] => rfl
  | (key, value) :: rest => by
    rw [sameEntries, entriesFreeOfNaN, same_self value, sameEntries_self rest, beq_self_eq_true,
      Bool.true_and]

end

/-- Two values of the same form, with what is compared of them. -/
inductive Same : Value → Value → Prop
  | null : Same .null .null
  | bool (b : Bool) : Same (.bool b) (.bool b)
  | int (n : Int64) : Same (.int n) (.int n)
  | float {x y : Float} (beq : (x == y) = true) : Same (.float x) (.float y)
  | str (text : String) : Same (.str text) (.str text)
  | list {left right : List Value} (items : sameItems left right = true) :
    Same (.list left) (.list right)
  | map {left right : List (String × Value)} (entries : sameEntries left right = true) :
    Same (.map left) (.map right)

theorem same_iff {left right : Value} : left.same right = true ↔ Same left right := by
  constructor
  · intro same
    -- Values of different types are not the same by definition.
    cases left <;> cases right <;> try cases same
    case null.refl => exact .null
    case bool a b => exact eq_of_beq same ▸ .bool a
    case int m n => exact eq_of_beq same ▸ .int m
    case float x y => exact .float same
    case str s t => exact eq_of_beq same ▸ .str s
    case list left right => exact .list same
    case map left right => exact .map same
  · rintro (_ | b | n | beq | text | items | entries)
    · rfl
    · exact beq_self_eq_true b
    · exact beq_self_eq_true n
    · exact beq
    · exact beq_self_eq_true text
    · exact items
    · exact entries

theorem sameEntries_cons_iff {k l : String} {a b : Value} {left right : List (String × Value)} :
    sameEntries ((k, a) :: left) ((l, b) :: right) = true ↔
      (k = l ∧ a.same b = true) ∧ sameEntries left right = true := by
  rw [sameEntries, Bool.and_eq_true, Bool.and_eq_true, beq_iff_eq]

mutual

private theorem same_symm {left right : Value} (same : left.same right = true) :
    right.same left = true := by
  cases same_iff.mp same with
  | null | bool | int | str => exact same
  | float beq => exact BEq.symm beq
  | list items => exact sameItems_symm items
  | map entries => exact sameEntries_symm entries

private theorem sameItems_symm : ∀ {left right : List Value}, sameItems left right = true →
    sameItems right left = true
  | [], [], same => same
  | a :: left, b :: right, same => by
    obtain ⟨first, rest⟩ := Bool.and_eq_true_iff.mp same
    exact Bool.and_eq_true_iff.mpr ⟨same_symm first, sameItems_symm rest⟩

private theorem sameEntries_symm : ∀ {left right : List (String × Value)},
    sameEntries left right = true → sameEntries right left = true
  | [], [], same => same
  | (k, a) :: left, (l, b) :: right, same => by
    obtain ⟨⟨key, value⟩, rest⟩ := sameEntries_cons_iff.mp same
    exact sameEntries_cons_iff.mpr ⟨⟨key.symm, same_symm value⟩, sameEntries_symm rest⟩

end

mutual

private theorem same_trans {a b c : Value} (first : a.same b = true) (second : b.same c = true) :
    a.same c = true := by
  cases same_iff.mp first with
  | null | bool | int | str => exact second
  | float beq =>
    cases same_iff.mp second with
    | float beq' => exact BEq.trans beq beq'
  | list items =>
    cases same_iff.mp second with
    | list items' => exact sameItems_trans items items'
  | map entries =>
    cases same_iff.mp second with
    | map entries' => exact sameEntries_trans entries entries'

private theorem sameItems_trans :
    ∀ {a b c : List Value}, sameItems a b = true → sameItems b c = true →
    sameItems a c = true
  | [], [], _, _, second => second
  | _ :: _, _ :: _, _ :: _, first, second => by
    obtain ⟨here, rest⟩ := Bool.and_eq_true_iff.mp first
    obtain ⟨here', rest'⟩ := Bool.and_eq_true_iff.mp second
    exact Bool.and_eq_true_iff.mpr ⟨same_trans here here', sameItems_trans rest rest'⟩

private theorem sameEntries_trans : ∀ {a b c : List (String × Value)}, sameEntries a b = true →
    sameEntries b c = true → sameEntries a c = true
  | [], [], _, _, second => second
  | (_, _) :: _, (_, _) :: _, (_, _) :: _, first, second => by
    obtain ⟨⟨key, value⟩, rest⟩ := sameEntries_cons_iff.mp first
    obtain ⟨⟨key', value'⟩, rest'⟩ := sameEntries_cons_iff.mp second
    exact sameEntries_cons_iff.mpr
      ⟨⟨key.trans key', same_trans value value'⟩, sameEntries_trans rest rest'⟩

end

end SameForm

section Equality

/-- A value that is neither a number nor a list. -/
def IsPlain : Value → Prop
  | .null | .str _ | .map _ => True
  | _ => False

/-- Two equal values, with what is compared of them. -/
inductive Equal : Value → Value → Prop
  | numbers {left right : Value} {m n : Number} (isLeft : left.number? = some m)
    (isRight : right.number? = some n) (equal : m.equal n = true) : Equal left right
  | list {left right : List Value} (items : equalItems left right = true) :
    Equal (.list left) (.list right)
  | plain {left right : Value} (isLeft : left.IsPlain) (isRight : right.IsPlain)
    (same : left.same right = true) : Equal left right

private theorem IsPlain.number?_eq_none {value : Value} (isPlain : value.IsPlain) :
    value.number? = none := by
  cases value <;> first | rfl | cases isPlain

private theorem equal_of_numbers {left right : Value} {m n : Number}
    (isLeft : left.number? = some m)
    (isRight : right.number? = some n) : left.equal right = m.equal n := by
  rw [equal.eq_2 left right (by rintro l r rfl; cases isLeft), isLeft, isRight]

private theorem equal_of_isPlain {left right : Value} (isLeft : left.IsPlain) :
    left.equal right = left.same right := by
  cases left with
  | null | str | map => rfl
  | bool | int | float | list => cases isLeft

theorem equal_iff {left right : Value} : left.equal right = true ↔ Equal left right := by
  constructor
  · intro equal
    cases left with
    | null | str | map =>
      have same : Value.same _ right = true := equal
      cases same_iff.mp same
      exact .plain trivial trivial same
    | list left =>
      cases right with
      | list right => exact .list equal
      | _ => cases equal
    | bool | int | float =>
      cases right with
      | bool | int | float => exact .numbers rfl rfl equal
      | _ => cases equal
  · rintro (⟨isLeft, isRight, equal⟩ | items | ⟨isLeft, -, same⟩)
    · rwa [equal_of_numbers isLeft isRight]
    · exact items
    · rwa [equal_of_isPlain isLeft]

mutual

/-- Whether at some place of the lists, which stand in each other in any depth, the outer values
are integers and `Number.straddles` holds. -/
def straddles : Value → Value → Value → Bool
  | .list left, .list middle, .list right => itemsStraddle left middle right
  | left, middle, right =>
    match left.number?, middle.number?, right.number? with
    | some l, some m, some n => l.straddles m n
    | _, _, _ => false

/-- Whether the items at some place of three lists straddle. -/
def itemsStraddle : List Value → List Value → List Value → Bool
  | a :: left, b :: middle, c :: right => a.straddles b c || itemsStraddle left middle right
  | _, _, _ => false

end

mutual

theorem equal_self : ∀ value : Value, value.equal value = value.freeOfNaN
  | .list items => by rw [equal, freeOfNaN, equalItems_self items]
  | .float x => same_self (.float x)
  | .bool b => beq_self_eq_true _
  | .int n => beq_self_eq_true _
  | .null => rfl
  | .str _ => same_self _
  | .map _ => same_self _

private theorem equalItems_self :
    ∀ items : List Value, equalItems items items = itemsFreeOfNaN items
  | [] => rfl
  | value :: rest => by rw [equalItems, itemsFreeOfNaN, equal_self value, equalItems_self rest]

end

mutual

theorem equal_symm {left right : Value} (equal : left.equal right = true) :
    right.equal left = true := by
  cases equal_iff.mp equal with
  | numbers isLeft isRight equal =>
    exact equal_iff.mpr (.numbers isRight isLeft (Number.equal_symm equal))
  | list items => exact equalItems_symm items
  | plain isLeft isRight same => exact equal_iff.mpr (.plain isRight isLeft (same_symm same))

private theorem equalItems_symm : ∀ {left right : List Value}, equalItems left right = true →
    equalItems right left = true
  | [], [], equal => equal
  | _ :: _, _ :: _, equal => by
    obtain ⟨first, rest⟩ := Bool.and_eq_true_iff.mp equal
    exact Bool.and_eq_true_iff.mpr ⟨equal_symm first, equalItems_symm rest⟩

end

private theorem straddles_of_numbers {a b c : Value} {l m n : Number} (isLeft : a.number? = some l)
    (isMiddle : b.number? = some m) (isRight : c.number? = some n) :
    straddles a b c = l.straddles m n := by
  rw [straddles.eq_2 a b c (by rintro left middle right rfl; cases isLeft), isLeft, isMiddle,
    isRight]

private theorem straddles_of_isPlain {a b c : Value} (isLeft : a.IsPlain) :
    straddles a b c = false := by
  cases a with
  | null | str | map => rfl
  | bool | int | float | list => cases isLeft

mutual

/-- Values that are equal to the same value are equal, but for integers that straddle it. -/
theorem equal_trans {a b c : Value} (first : a.equal b = true) (second : b.equal c = true) :
    a.equal c = !straddles a b c := by
  cases equal_iff.mp first with
  | numbers isLeft isMiddle equal =>
    cases equal_iff.mp second with
    | numbers isMiddle' isRight equal' =>
      obtain rfl := Option.some.inj (isMiddle.symm.trans isMiddle')
      rw [equal_of_numbers isLeft isRight, straddles_of_numbers isLeft isMiddle isRight]
      exact Number.equal_trans equal equal'
    | list items => cases isMiddle
    | plain isPlain => cases isPlain.number?_eq_none.symm.trans isMiddle
  | list items =>
    cases equal_iff.mp second with
    | list items' => exact equalItems_trans items items'
    | numbers isMiddle => cases isMiddle
    | plain isPlain => cases isPlain
  | plain isLeft isMiddle same =>
    rw [equal_of_isPlain isMiddle] at second
    rw [equal_of_isPlain isLeft, straddles_of_isPlain isLeft]
    exact same_trans same second

private theorem equalItems_trans : ∀ {a b c : List Value}, equalItems a b = true →
    equalItems b c = true → equalItems a c = !itemsStraddle a b c
  | [], [], [], _, _ => rfl
  | _ :: _, _ :: _, _ :: _, first, second => by
    obtain ⟨here, rest⟩ := Bool.and_eq_true_iff.mp first
    obtain ⟨here', rest'⟩ := Bool.and_eq_true_iff.mp second
    rw [equalItems, itemsStraddle, equal_trans here here', equalItems_trans rest rest', Bool.not_or]

end

end Equality

end Value

namespace BinaryOperator

section Equal

variable {a b : Value}

theorem apply_equal_eq_true_iff :
    equal.apply a b = .ok (.bool true) ↔ a.equal b = true := by
  rw [apply, Except.ok.injEq, Value.bool.injEq]

private theorem apply_contained_list (sought : Value) (items : List Value) :
    contained.apply sought (.list items) = .ok (.bool (items.any sought.equal)) := by
  cases sought <;> rfl

private theorem equal_congr (same : a.equal b = true) {item : Value}
    (fine : Value.straddles a b item = false) (fine' : Value.straddles b a item = false) :
    a.equal item = b.equal item := by
  rw [Bool.eq_iff_iff]
  constructor
  · intro holds
    rw [Value.equal_trans (Value.equal_symm same) holds, fine', Bool.not_false]
  · intro holds
    rw [Value.equal_trans same holds, fine, Bool.not_false]

end Equal

/-- Equality is reflexive but for what is not a number, symmetric, and transitive but for integers
that straddle a floating point number; with the same exception, equal values are contained in the
same lists. -/
theorem equal_equivalence_unless_straddling (a b c : Value) (items : List Value) :
    (a.freeOfNaN = true → equal.apply a a = .ok (.bool true)) ∧
    equal.apply a b = equal.apply b a ∧
    (equal.apply a b = .ok (.bool true) → equal.apply b c = .ok (.bool true) →
      equal.apply a c = .ok (.bool !Value.straddles a b c)) ∧
    (equal.apply a b = .ok (.bool true) →
      (∀ item ∈ items, Value.straddles a b item = false ∧ Value.straddles b a item = false) →
      contained.apply a (.list items) = contained.apply b (.list items)) := by
  simp only [apply_equal_eq_true_iff]
  refine ⟨fun free => ?_, ?_, fun first second => ?_, fun same fine => ?_⟩
  · rw [Value.equal_self, free]
  · have mirrored : a.equal b = b.equal a :=
      Bool.eq_iff_iff.mpr ⟨Value.equal_symm, Value.equal_symm⟩
    rw [apply, apply, mirrored]
  · rw [apply, Value.equal_trans first second]
  · have found : items.any a.equal = items.any b.equal := by
      rw [Bool.eq_iff_iff, List.any_eq_true, List.any_eq_true]
      refine exists_congr fun item => and_congr_right fun member => ?_
      rw [equal_congr same (fine item member).1 (fine item member).2]
    rw [apply_contained_list, apply_contained_list, found]

theorem equal_equivalence_unless_straddling_beyond_53_digits :
    let long : Value := .list [.int 9007199254740993]
    let rounded : Value := .list [.float (Float.ofBits 0x4340000000000000)]
    let other : Value := .list [.int 9007199254740992]
    equal.apply long long = .ok (.bool true) ∧ equal.apply long rounded = .ok (.bool true) ∧
      equal.apply rounded other = .ok (.bool true) ∧ equal.apply long other = .ok (.bool false) ∧
      contained.apply long (.list [rounded]) = contained.apply rounded (.list [rounded]) := by
  intro long rounded other
  have first : equal.apply long rounded = .ok (.bool true) :=
    apply_equal_eq_true_iff.mpr (by decide)
  have second : equal.apply rounded other = .ok (.bool true) :=
    apply_equal_eq_true_iff.mpr (by decide)
  obtain ⟨reflexive, -, transitive, contains⟩ :=
    equal_equivalence_unless_straddling long rounded other [rounded]
  refine ⟨reflexive rfl, first, second, transitive first second, contains first ?_⟩
  exact List.forall_mem_singleton.mpr ⟨rfl, rfl⟩

/-- Two integers beyond the precision of floating point numbers are equal to one of these, and not
to each other. -/
theorem not_equal_trans : ¬∀ a b c : Value, a.freeOfNaN = true → b.freeOfNaN = true →
    c.freeOfNaN = true → equal.apply a b = .ok (.bool true) →
    equal.apply b c = .ok (.bool true) → equal.apply a c = .ok (.bool true) := by
  intro transitive
  have equal := transitive (.int 9007199254740993) (.float (Float.ofBits 0x4340000000000000))
    (.int 9007199254740992) rfl (by decide) rfl (apply_equal_eq_true_iff.mpr (by decide))
    (apply_equal_eq_true_iff.mpr (by decide))
  exact absurd (apply_equal_eq_true_iff.mp equal) (by decide)

end BinaryOperator

end Stencil
