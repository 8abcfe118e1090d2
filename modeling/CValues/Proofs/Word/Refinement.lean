import CValues.Proofs.Expr.StaticType
import CValues.Proofs.Word.Encoding
import CValues.Word.Operator

/-!
# Operations on words

What a conversion, an operator or an expression does with the words of values is what it does with
the values: it leaves the same records, fails in the same way, and what it gives is the word of what
it gives on values. So the operations on words keep to the words of values, and everything that is
shown of the operations on values holds of them.

Only where both operands have been brought to their common type are there words that a machine reads
more generously than it would have to. A `float` among them is never read as a `double`.
-/

namespace CValues

namespace Traced

variable {α β γ : Type}

private theorem map_andThen (f : α → β) (x : Traced α) (record : Event) :
    f <$> x.andThen record = (f <$> x).andThen record := by
  rcases x with ⟨log, e | a⟩
  · rfl
  · refine Traced.ext ?_ rfl
    change (log ++ [record]) ++ [] = (log ++ []) ++ [record]
    rw [List.append_nil, List.append_nil]

theorem ofExcept_map (f : α → β) (r : Except Error α) : ofExcept (r.map f) = f <$> ofExcept r := by
  cases r <;> rfl

/-- Two sequences are the same if they go on in the same way from what the first part gives. -/
theorem bind_congr_of_ok {x : Traced α} {f g : α → Traced β}
    (h : ∀ a, x.result = .ok a → f a = g a) : x >>= f = x >>= g := by
  rcases hx : x.result with e | a
  · rw [bind_of_error hx, bind_of_error hx]
  · rw [bind_of_ok hx, bind_of_ok hx, h a hx]

end Traced

open Value

variable {v w : Value} {t : CType} {target : Target}

/-! ## Conversions -/

private theorem truthValue_word (v : Value) : v.word.truthValue = (truthValue v).word := by
  rw [TypedWord.truthValue, isZero_word, truthValue, word_bool]

private theorem integerToInteger_word (width : Width) (s : Signedness) (v : Value) :
    v.word.integerToInteger width s = word <$> integerToInteger width s v := by
  rw [TypedWord.integerToInteger, integerToInteger, integer?_word, type_word]
  rcases v.integer? with _ | x
  · rfl
  · exact congrArg pure (word_ofInt width s x).symm

private theorem integerToFloating_word (f : FloatFormat) (v : Value) :
    v.word.integerToFloating f = word <$> integerToFloating f v := by
  rw [TypedWord.integerToFloating, integerToFloating, integer?_word, type_word]
  rcases v.integer? with _ | x
  · rfl
  · exact congrArg pure (word_float f (f.ofInt x)).symm

private theorem floatingToInteger_word (width : Width) (s : Signedness) (v : Value) :
    v.word.floatingToInteger width s = word <$> floatingToInteger width s v := by
  rw [TypedWord.floatingToInteger, double?_word, type_word]
  cases v with
  | float f x =>
    change pure (TypedWord.ofInt width s (FloatFormat.double.toInt (f.widen x))) = _
    rw [FloatFormat.toInt_widen, ← word_ofInt]
    rfl
  | bool | int | pointer | array => rfl

private theorem floatingToFloating_word (g : FloatFormat) (v : Value) :
    v.word.floatingToFloating g = word <$> floatingToFloating g v := by
  rw [TypedWord.floatingToFloating, double?_word, type_word]
  cases v with
  | float f x =>
    cases f with
    | single => cases g with
      | single => rfl
      | double => exact congrArg pure (word_float .double _).symm
    | double => cases g with
      | single => exact congrArg pure (word_float .single _).symm
      | double => rfl
  | bool | int | pointer | array => rfl

private theorem integerToPointer_word (target : Target) (kind : ConversionKind) (v : Value)
    (t : CType) :
    v.word.integerToPointer target kind t = word <$> integerToPointer target kind v t := by
  unfold TypedWord.integerToPointer integerToPointer
  rw [integer?_word, type_word]
  rcases v.integer? with _ | x
  · rfl
  · cases t with
    | pointer pointee q =>
      dsimp only [CType.isPointer]
      split_ifs
      · rfl
      · rw [Width.maskedWord_eq]
        exact congrArg pure (word_pointer pointee q _).symm
    | void | bool | int | float | array => rfl

private theorem pointerToInteger_word (target : Target) (kind : ConversionKind) (width : Width)
    (s : Signedness) (v : Value) :
    v.word.pointerToInteger target kind width s
      = word <$> pointerToInteger target kind width s v := by
  unfold TypedWord.pointerToInteger pointerToInteger
  rw [address?_word, type_word]
  rcases v.address? with _ | a
  · rfl
  · cases kind with
    | implicit => rfl
    | explicit => exact congrArg pure (word_ofInt width s _).symm

private theorem pointerToPointer_word (kind : ConversionKind) (v : Value) (t : CType) :
    v.word.pointerToPointer kind t = word <$> pointerToPointer kind v t := by
  cases v with
  | pointer source q a => cases t with
    | pointer pointee wanted =>
      rw [word_pointer]
      change ite _ _ (ite _ _ _) = word <$> ite _ _ (ite _ _ _)
      split_ifs
      · rfl
      · rfl
      · exact congrArg pure (word_pointer pointee wanted a).symm
    | void | bool | int | float | array => rfl
  | bool | int | float | array => rfl

theorem reinterpret_word (v : Value) (pointee : CType) :
    v.word.reinterpret pointee = word <$> reinterpret v pointee := by
  cases v with
  | pointer source q a =>
    rw [word_pointer]
    change ite _ _ _ = word <$> ite _ _ _
    split_ifs
    · exact congrArg pure (word_pointer pointee .none a).symm
    · rfl
  | bool | int | float | array => rfl

theorem decayArray_word (v : Value) (element : CType) :
    v.word.decayArray element = word <$> decayArray v element := by
  cases v with
  | array actual n a =>
    rw [word_array]
    change ite _ _ _ = word <$> ite _ _ _
    split_ifs
    · exact congrArg pure (word_pointer element .none a).symm
    · rfl
  | bool | int | float | pointer => rfl

private theorem arrayToPointer_word (kind : ConversionKind) (v : Value) (t : CType) :
    v.word.arrayToPointer kind t = word <$> arrayToPointer kind v t := by
  cases v with
  | array element n a =>
    change (word (array element n a)).decayArray element >>= _ = word <$> (decayArray _ _ >>= _)
    rw [decayArray_word, bind_map_left, map_bind]
    exact bind_congr fun first ↦ pointerToPointer_word kind first t
  | bool | int | float | pointer => rfl

theorem applyRule_word (target : Target) (kind : ConversionKind) (v : Value) (t : CType)
    (rule : Rule) :
    v.word.applyRule target kind t rule = word <$> rule.apply target kind v t := by
  cases rule with
  | truthValue => exact congrArg pure (truthValue_word v)
  | integerToInteger => cases t with
    | int width s => exact integerToInteger_word width s v
    | void | bool | float | pointer | array => rfl
  | integerToFloating => cases t with
    | float f => exact integerToFloating_word f v
    | void | bool | int | pointer | array => rfl
  | integerToPointer => exact integerToPointer_word target kind v t
  | floatingToInteger => cases t with
    | int width s => exact floatingToInteger_word width s v
    | void | bool | float | pointer | array => rfl
  | floatingToFloating => cases t with
    | float f => exact floatingToFloating_word f v
    | void | bool | int | pointer | array => rfl
  | pointerToInteger => cases t with
    | int width s => exact pointerToInteger_word target kind width s v
    | void | bool | float | pointer | array => rfl
  | pointerToPointer => exact pointerToPointer_word kind v t
  | arrayDecay => exact arrayToPointer_word kind v t

theorem convert_word (target : Target) (kind : ConversionKind) (v : Value) (t : CType) :
    v.word.convert target kind t = word <$> convert target kind v t := by
  rw [TypedWord.convert, convert, type_word]
  rcases Rule.between? v.type t with _ | rule
  · rfl
  · change Traced.andThen _ _ = word <$> Traced.andThen _ _
    rw [applyRule_word, Traced.map_andThen]

theorem promote_word (v : Value) : v.word.promote = v.promote.word := by
  rw [TypedWord.promote, integer?_word, type_word]
  cases v with
  | bool => exact (word_ofInt .w32 .signed _).symm
  | int width s x => cases width with
    | w8 | w16 => exact (word_ofInt .w32 .signed _).symm
    | w32 | w64 => rfl
  | float | pointer | array => rfl

/-! ## Arithmetic -/

private theorem onCommonType_word (op : BinaryOp) {c : CommonType} (hv : v.type = c.toCType)
    (hw : w.type = c.toCType) :
    v.word.onCommonType op w.word c = word <$> onCommonType op v w c := by
  cases c with
  | int width s =>
    rw [TypedWord.onCommonType, onCommonType, integer?_word, integer?_word, type_word, type_word]
    rcases v.integer? with _ | x
    · rfl
    · rcases w.integer? with _ | y
      · rfl
      · change liftM (op.onIntegers x y) >>= _ = word <$> (liftM (op.onIntegers x y) >>= _)
        rw [map_bind]
        refine bind_congr fun r ↦ ?_
        exact congrArg pure (word_ofInt width s r).symm
  | float f =>
    rw [TypedWord.onCommonType, onCommonType, pattern?_word hv, pattern?_word hw, type_word,
      type_word]
    rcases v.pattern? f with _ | x
    · rfl
    · rcases w.pattern? f with _ | y
      · rfl
      · dsimp only
        rcases op.onFloats f x y with _ | r
        · rfl
        · exact congrArg pure (word_float f r).symm

theorem shift_word (op : BinaryOp) (v w : Value) :
    v.word.shift op w.word = word <$> shift op v w := by
  unfold TypedWord.shift shift
  rw [promote_word, promote_word, integer?_word, integer?_word, type_word, type_word]
  cases v.promote with
  | int width s x =>
    rcases w.promote.integer? with _ | count
    · rfl
    · dsimp only [Value.type, Value.integer?]
      rw [map_bind]
      refine bind_congr fun r ↦ ?_
      exact congrArg pure (word_ofInt width s r).symm
  | bool | float | pointer | array => rfl

theorem arithmetic_word (target : Target) (op : BinaryOp) (hv : v.type.isArithmetic = true)
    (hw : w.type.isArithmetic = true) :
    v.word.arithmetic target op w.word = word <$> arithmetic target op v w := by
  rw [TypedWord.arithmetic, arithmetic, type_word, type_word, hv, hw, if_neg (by decide)]
  split_ifs
  · rfl
  · exact shift_word op v w
  · rw [map_bind]
    refine bind_congr fun common ↦ ?_
    rw [convert_word, bind_map_left, map_bind]
    refine Traced.bind_congr_of_ok fun v' hv' ↦ ?_
    rw [convert_word, bind_map_left, map_bind]
    refine Traced.bind_congr_of_ok fun w' hw' ↦ ?_
    exact onCommonType_word op (type_of_convert hv') (type_of_convert hw')

/-! ## Pointers -/

private theorem offset_word (target : Target) (op : BinaryOp) (operands : List CType)
    (pointee : CType) (q : Qualifiers) (a : BitVec 64) (index : Value) (sign : Int) :
    TypedWord.offset target op operands (pointer pointee q a).word pointee index.word sign
      = word <$> offset target op operands pointee q a index sign := by
  rw [TypedWord.offset, offset, integer?_word]
  rcases index.integer? with _ | i
  · rfl
  · dsimp only
    rw [map_bind]
    refine bind_congr fun size ↦ ?_
    rw [word_pointer, Width.maskedWord_eq]
    exact congrArg pure (word_pointer pointee q _).symm

private theorem distance_word (target : Target) (op : BinaryOp) (pointee : CType) (v w : Value)
    {a b : BitVec 64} (hv : v.bits = a.toNat) (hw : w.bits = b.toNat) :
    TypedWord.distance target op pointee v.word w.word
      = word <$> distance target op pointee a b := by
  rw [TypedWord.distance, distance, map_bind, toNat_bits_word, toNat_bits_word, hv, hw]
  refine bind_congr fun size ↦ ?_
  exact congrArg pure (word_ofInt target.addressWidth .signed _).symm

theorem pointerArithmetic_word (target : Target) (op : BinaryOp) (v w : Value) :
    v.word.pointerArithmetic target op w.word = word <$> pointerArithmetic target op v w := by
  unfold TypedWord.pointerArithmetic pointerArithmetic
  cases v with
  | pointer t q a => cases w with
    | pointer u r b => cases op with
      | sub =>
        change ite (t = u) _ _ = word <$> ite (t = u) _ _
        split_ifs
        · exact distance_word target .sub t _ _ rfl rfl
        · rfl
      | _ => rfl
    | bool | int | float | array => cases op with
      | add | sub => exact offset_word target _ _ t q a _ _
      | _ => rfl
  | bool | int | float | array => cases w with
    | pointer u r b => cases op with
      | add => exact offset_word target _ _ u r b _ _
      | _ => rfl
    | bool | int | float | array => cases op <;> rfl

private theorem Value.isArithmetic_decay (hv : v.decay.type.isPointer = false) :
    v.decay.type.isArithmetic = true := by
  cases v with
  | pointer | array => cases hv
  | bool | int | float => rfl

theorem binary_word (target : Target) (op : BinaryOp) (v w : Value) :
    v.word.binary target op w.word = word <$> binary target op v w := by
  rw [TypedWord.binary, binary, decay_word, decay_word, type_word, type_word]
  split_ifs with hpointer
  · exact pointerArithmetic_word target op v.decay w.decay
  · rw [Bool.or_eq_true, not_or, Bool.not_eq_true, Bool.not_eq_true] at hpointer
    exact arithmetic_word target op (isArithmetic_decay hpointer.1) (isArithmetic_decay hpointer.2)

/-! ## Comparison -/

private theorem outcomeInt_word (holds : Bool) : (outcomeInt holds).word = .outcomeInt holds :=
  word_ofInt .w32 .signed holds.toNat

/-- Two `float` are compared as the `double` for them. -/
theorem compareNumbers_word (htype : v.type = w.type) :
    v.word.compareNumbers w.word = compareNumbers v w := by
  unfold TypedWord.compareNumbers
  rw [integer?_word, integer?_word, double?_word, double?_word]
  cases v with
  | float f x => cases w with
    | float g y =>
      obtain rfl := CType.float.inj htype
      change FloatFormat.double.order (f.widen x) (f.widen y) = _
      rw [FloatFormat.order_widen]
      cases f <;> rfl
    | bool | int | pointer | array => cases htype
  | bool | int | pointer | array => cases w with
    | float => cases htype
    | bool | int | pointer | array => rfl

private theorem bits_eq_zero_of_integer? (hv : v.integer? = some 0) : v.bits = 0 := by
  have hzero := (isZero_iff_of_integer? hv).mpr rfl
  cases v with
  | bool | int => exact beq_iff_eq.mp hzero
  | float | pointer | array => cases hv

private theorem orderOf_word (target : Target) (op : CompareOp) (v w : Value) :
    v.word.orderOf target op w.word = orderOf target op v w := by
  cases v with
  | pointer t q a => cases w with
    | pointer u r b =>
      rw [word_pointer, word_pointer]
      rfl
    | bool | int | float | array =>
      unfold TypedWord.orderOf orderOf
      dsimp only [type_word, Value.type, CType.pointee?]
      rw [integer?_word, toNat_bits_word, toNat_bits_word]
      split_ifs with hw
      · rw [bits_eq_zero_of_integer? hw.1]
        rfl
      · rfl
  | bool | int | float | array => cases w with
    | pointer u r b =>
      unfold TypedWord.orderOf orderOf
      dsimp only [type_word, Value.type, CType.pointee?]
      rw [integer?_word, toNat_bits_word, toNat_bits_word]
      split_ifs with hv
      · rw [bits_eq_zero_of_integer? hv.1]
        rfl
      · rfl
    | bool | int | float | array =>
      unfold TypedWord.orderOf orderOf
      dsimp only [type_word, Value.type, CType.pointee?]
      refine bind_congr fun common ↦ ?_
      rw [convert_word, bind_map_left]
      refine Traced.bind_congr_of_ok fun v' hv' ↦ ?_
      rw [convert_word, bind_map_left]
      refine Traced.bind_congr_of_ok fun w' hw' ↦ ?_
      rw [compareNumbers_word ((type_of_convert hv').trans (type_of_convert hw').symm)]

theorem compare_word (target : Target) (op : CompareOp) (v w : Value) :
    v.word.compare target op w.word = word <$> compareValues target op v w := by
  rw [TypedWord.compare, compareValues, decay_word, decay_word, orderOf_word, map_bind]
  refine bind_congr fun order ↦ ?_
  exact congrArg pure (outcomeInt_word _).symm

/-! ## One operand and truth values -/

theorem unary_word (op : UnaryOp) (v : Value) : v.word.unary op = word <$> unary op v := by
  unfold TypedWord.unary unary
  dsimp only
  rw [decay_word, promote_word, isZero_word, integer?_word, type_word, type_word]
  by_cases hnot : op = .not
  · subst hnot
    rw [if_pos rfl]
    dsimp only
    split_ifs
    · exact congrArg pure (outcomeInt_word _).symm
    · rfl
  · rw [if_neg hnot]
    cases v.decay.promote with
    | int width s x => cases op with
      | not => exact absurd rfl hnot
      | plus | neg | complement => exact congrArg pure (word_ofInt width s _).symm
    | float f x =>
      have hpattern : (float f x).word.pattern? f = some x :=
        (pattern?_word rfl).trans (dif_pos rfl)
      cases op with
      | not => exact absurd rfl hnot
      | plus =>
        change pure (TypedWord.ofPattern f (((float f x).word.pattern? f).getD 0)) = _
        rw [hpattern]
        exact congrArg pure (word_float f x).symm
      | neg =>
        change pure (TypedWord.ofPattern f (f.negate (((float f x).word.pattern? f).getD 0))) = _
        rw [hpattern]
        exact congrArg pure (word_float f (f.negate x)).symm
      | complement => rfl
    | bool | pointer | array => cases op with
      | not => exact absurd rfl hnot
      | plus | neg | complement => rfl

theorem logical_word (op : LogicalOp) (v w : Value) :
    v.word.logical op w.word = word <$> logical op v w := by
  rw [TypedWord.logical, logical, decay_word, decay_word, isZero_word, isZero_word, type_word,
    type_word]
  split_ifs
  · exact congrArg pure (outcomeInt_word _).symm
  · rfl

/-! ## Expressions -/

theorem Expr.evalWord_eq (target : Target) (e : Expr) :
    e.evalWord target = word <$> e.eval target := by
  induction e with
  | literal v => rfl
  | char c => exact congrArg pure (word_ofInt .w32 .signed c.toNat).symm
  | cast t e ih =>
    rw [evalWord, eval, ih, bind_map_left, map_bind]
    exact bind_congr fun v ↦ convert_word target .explicit v t
  | assign t e ih =>
    rw [evalWord, eval, ih, bind_map_left, map_bind]
    exact bind_congr fun v ↦ convert_word target .implicit v t
  | paren e ih => exact ih
  | unary op e ih =>
    rw [evalWord, eval, ih, bind_map_left, map_bind]
    exact bind_congr fun v ↦ unary_word op v
  | binary op l r ihl ihr =>
    rw [evalWord, eval, ihl, ihr, bind_map_left, map_bind]
    refine bind_congr fun v ↦ ?_
    rw [bind_map_left, map_bind]
    exact bind_congr fun w ↦ binary_word target op v w
  | compare op l r ihl ihr =>
    rw [evalWord, eval, ihl, ihr, bind_map_left, map_bind]
    refine bind_congr fun v ↦ ?_
    rw [bind_map_left, map_bind]
    exact bind_congr fun w ↦ compare_word target op v w
  | logical op l r ihl ihr =>
    rw [evalWord, eval, ihl, ihr, bind_map_left, map_bind]
    refine bind_congr fun v ↦ ?_
    rw [isZero_word, type_word]
    split_ifs
    · exact logical_word op v v
    · rw [bind_map_left, map_bind]
      exact bind_congr fun w ↦ logical_word op v w

end CValues
