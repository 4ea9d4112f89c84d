import Duet.Lib.Assoc
import Mathlib.Data.Rat.Defs

/-!
# Dynamically typed values

JSON and document values: scalars, arrays and maps of values. Equality is decidable by
structural recursion, so that a program that compares two documents can be evaluated.

## Main definitions

* `Value` — a dynamic value; `Fields` — the fields of a map or of a document.
* `Value.asString`, `Value.asInt`, `Value.asNum`, … — checked casts.
* `Fields.read` — the value of a field, `null` when there is none.
-/

namespace Lib

/-- A dynamically typed value. Integers and doubles are told apart, as JSON decoders and
document stores do; a timestamp counts microseconds since the epoch. -/
inductive Value where
  | null
  | bool (b : Bool)
  | int (i : Int)
  | double (x : ℚ)
  | timestamp (micros : Int)
  | string (s : String)
  | array (items : List Value)
  | map (fields : List (String × Value))
  deriving Repr

/-- The fields of a map value or of a document. -/
abbrev Fields := Assoc String Value

namespace Value

/-- Which constructor built a value. -/
def kind : Value → Nat
  | .null => 0
  | .bool _ => 1
  | .int _ => 2
  | .double _ => 3
  | .timestamp _ => 4
  | .string _ => 5
  | .array _ => 6
  | .map _ => 7

mutual

def decEq (a b : Value) : Decidable (a = b) :=
  if h : a.kind = b.kind then
    match a, b, h with
    | .null, .null, _ => isTrue rfl
    | .bool x, .bool y, _ => decidable_of_iff (x = y) (by simp)
    | .int x, .int y, _ => decidable_of_iff (x = y) (by simp)
    | .double x, .double y, _ => decidable_of_iff (x = y) (by simp)
    | .timestamp x, .timestamp y, _ => decidable_of_iff (x = y) (by simp)
    | .string x, .string y, _ => decidable_of_iff (x = y) (by simp)
    | .array xs, .array ys, _ =>
      have := decEqItems xs ys
      decidable_of_iff (xs = ys) (by simp)
    | .map xs, .map ys, _ =>
      have := decEqFields xs ys
      decidable_of_iff (xs = ys) (by simp)
  else isFalse (by rintro rfl; exact h rfl)

def decEqItems (a b : List Value) : Decidable (a = b) :=
  match a, b with
  | [], [] => isTrue rfl
  | x :: xs, y :: ys =>
    have := decEq x y
    have := decEqItems xs ys
    decidable_of_iff (x = y ∧ xs = ys) (by simp)
  | [], _ :: _ | _ :: _, [] => isFalse (by simp)

def decEqFields (a b : List (String × Value)) : Decidable (a = b) :=
  match a, b with
  | [], [] => isTrue rfl
  | (k, x) :: xs, (l, y) :: ys =>
    have := decEq x y
    have := decEqFields xs ys
    decidable_of_iff (k = l ∧ x = y ∧ xs = ys) (by simp [and_assoc])
  | [], _ :: _ | _ :: _, [] => isFalse (by simp)

end

instance : DecidableEq Value := decEq

def asBool : Value → Option Bool
  | .bool b => some b
  | _ => none

def asInt : Value → Option Int
  | .int i => some i
  | _ => none

/-- A number, read as a double. -/
def asNum : Value → Option ℚ
  | .int i => some i
  | .double x => some x
  | _ => none

def asTimestamp : Value → Option Int
  | .timestamp t => some t
  | _ => none

def asString : Value → Option String
  | .string s => some s
  | _ => none

def asArray : Value → Option (List Value)
  | .array vs => some vs
  | _ => none

def asMap : Value → Option Fields
  | .map fs => some fs
  | _ => none

/-- The cast to a nullable type: `null` is accepted, anything else goes through `cast`. -/
def orNull {α : Type*} (cast : Value → Option α) : Value → Option (Option α)
  | .null => some none
  | v => (cast v).map some

/-- A value or `null`. -/
def ofOption {α : Type*} (wrap : α → Value) : Option α → Value
  | none => .null
  | some a => wrap a

@[simp] theorem asBool_bool (b : Bool) : asBool (.bool b) = some b := rfl
@[simp] theorem asInt_int (i : Int) : asInt (.int i) = some i := rfl
@[simp] theorem asNum_double (x : ℚ) : asNum (.double x) = some x := rfl
@[simp] theorem asTimestamp_timestamp (t : Int) : asTimestamp (.timestamp t) = some t := rfl
@[simp] theorem asString_string (s : String) : asString (.string s) = some s := rfl
@[simp] theorem asArray_array (vs : List Value) : asArray (.array vs) = some vs := rfl
@[simp] theorem asMap_map (fs : Fields) : asMap (.map fs) = some fs := rfl

@[simp] theorem orNull_asString_ofOption (s : Option String) :
    orNull asString (ofOption .string s) = some s := by cases s <;> rfl

@[simp] theorem orNull_asInt_ofOption (i : Option Int) :
    orNull asInt (ofOption .int i) = some i := by cases i <;> rfl

@[simp] theorem orNull_asString_string (s : String) : orNull asString (.string s) = some (some s) :=
  rfl

@[simp] theorem orNull_asBool_bool (b : Bool) : orNull asBool (.bool b) = some (some b) := rfl

@[simp] theorem orNull_asArray_array (vs : List Value) :
    orNull asArray (.array vs) = some (some vs) := rfl

@[simp] theorem orNull_asMap_map (fs : Fields) : orNull asMap (.map fs) = some (some fs) := rfl

/-- What is read where `null` stands for nothing, which the cast itself does not accept. -/
theorem eq_of_orNull {α : Type*} {cast : Value → Option α} (hnull : cast .null = none) {v : Value}
    {a : Option α} (h : v.orNull cast = some a) : cast v = a := by
  unfold orNull at h
  split at h
  · exact hnull.trans (Option.some.inj h)
  · obtain ⟨b, hb, rfl⟩ := Option.map_eq_some_iff.mp h
    exact hb

theorem asString_eq_some {v : Value} {s : String} : v.asString = some s ↔ v = .string s := by
  cases v <;> simp [asString]

theorem orNull_asString_eq_some {v : Value} {s : Option String} :
    v.orNull asString = some s ↔ v = ofOption .string s := by
  cases v <;> cases s <;> simp [orNull, asString, ofOption]

end Value

/-- The value of a field, `null` when the map has no such field. -/
def Fields.read (f : Fields) (key : String) : Value := (f.get key).getD .null

@[simp] theorem Fields.read_nil (key : String) : Fields.read [] key = .null := rfl

theorem Fields.read_set (f : Fields) (key key' : String) (v : Value) :
    Fields.read (Assoc.set f key v) key' = if key' = key then v else f.read key' := by
  unfold read
  rw [Assoc.get_set]
  split_ifs <;> rfl

/-- A field that reads as a string is there. -/
theorem Fields.read_eq_string {f : Fields} {key value : String} :
    f.read key = .string value ↔ f.get key = some (.string value) := by
  rw [read]
  cases f.get key <;> simp

/-- A field that reads as anything but `null` is there. -/
theorem Fields.get_of_read {f : Fields} {key : String} {v : Value} (h : f.read key = v)
    (hv : v ≠ .null) : f.get key = some v := by
  rw [read] at h
  cases hget : f.get key with
  | none => exact absurd (by simpa [hget] using h.symm) hv
  | some w => simpa [hget] using h

/-- Decoding each element of an encoded list gives the list of the decoded elements. -/
theorem mapM_map_eq_some {α β γ : Type*} {encode : α → β} {decode : β → Option γ} {g : α → γ}
    (h : ∀ a, decode (encode a) = some (g a)) (as : List α) :
    (as.map encode).mapM decode = some (as.map g) := by
  induction as with
  | nil => rfl
  | cons a as ih => simp [h, ih]

/-- Decoding elements of which each is decoded. -/
theorem mapM_eq_some_map {α β : Type*} {decode : α → Option β} {g : α → β} {as : List α}
    (h : ∀ a ∈ as, decode a = some (g a)) : as.mapM decode = some (as.map g) := by
  induction as with
  | nil => rfl
  | cons a as ih =>
    rw [List.mapM_cons, h a List.mem_cons_self, ih fun a ha => h a (List.mem_cons_of_mem _ ha)]
    rfl

/-- A list is read back exactly if each of its elements is. -/
theorem mapM_map_eq_self_iff {α β : Type*} {encode : α → β} {decode : β → Option α} {as : List α} :
    (as.map encode).mapM decode = some as ↔ ∀ a ∈ as, decode (encode a) = some a := by
  induction as with
  | nil => simp
  | cons a as ih =>
    simp only [List.map_cons, List.mapM_cons, Option.bind_eq_bind, Option.bind_eq_some_iff,
      Option.pure_def, Option.some.injEq, List.cons.injEq, List.forall_mem_cons, ← ih]
    constructor
    · rintro ⟨b, hb, bs, hbs, rfl, rfl⟩
      exact ⟨hb, hbs⟩
    · rintro ⟨ha, has⟩
      exact ⟨a, ha, as, has, rfl, rfl⟩

/-- Every decoded element is decoded from one of the list. -/
theorem exists_of_mem_mapM {α β : Type*} {decode : α → Option β} {as : List α} {bs : List β}
    (h : as.mapM decode = some bs) {b : β} (hb : b ∈ bs) : ∃ a ∈ as, decode a = some b := by
  induction as generalizing bs with
  | nil =>
    obtain rfl : [] = bs := by simpa using h
    cases hb
  | cons a as ih =>
    simp only [List.mapM_cons, Option.bind_eq_bind, Option.bind_eq_some_iff, Option.pure_def,
      Option.some.injEq] at h
    obtain ⟨c, hc, cs, hcs, rfl⟩ := h
    obtain rfl | hb := List.mem_cons.mp hb
    · exact ⟨a, List.mem_cons_self, hc⟩
    · obtain ⟨a', ha', hdecode⟩ := ih hcs hb
      exact ⟨a', List.mem_cons_of_mem _ ha', hdecode⟩

/-- What is read from a list does not depend on its order, up to the order of the result. -/
theorem exists_mapM_of_perm {α β : Type*} {decode : α → Option β} {xs ys : List α}
    (h : xs.Perm ys) {zs : List β} (hz : ys.mapM decode = some zs) :
    ∃ ws, xs.mapM decode = some ws ∧ ws.Perm zs := by
  induction h generalizing zs with
  | nil => exact ⟨zs, hz, .rfl⟩
  | cons x _ ih =>
    simp only [List.mapM_cons, Option.bind_eq_bind, Option.bind_eq_some_iff, Option.pure_def,
      Option.some.injEq] at hz ⊢
    obtain ⟨z, hx, zs, hzs, rfl⟩ := hz
    obtain ⟨ws, hws, hperm⟩ := ih hzs
    exact ⟨z :: ws, ⟨z, hx, ws, hws, rfl⟩, hperm.cons z⟩
  | swap x y rest =>
    simp only [List.mapM_cons, Option.bind_eq_bind, Option.bind_eq_some_iff, Option.pure_def,
      Option.some.injEq] at hz ⊢
    obtain ⟨zx, hx, _, ⟨zy, hy, zs, hzs, rfl⟩, rfl⟩ := hz
    exact ⟨zy :: zx :: zs, ⟨zy, hy, _, ⟨zx, hx, zs, hzs, rfl⟩, rfl⟩, .swap zx zy zs⟩
  | trans _ _ ihx ihy =>
    obtain ⟨vs, hvs, hright⟩ := ihy hz
    obtain ⟨ws, hws, hleft⟩ := ihx hvs
    exact ⟨ws, hws, hleft.trans hright⟩

/-- The first of the decoded elements with a property, which shows on what they are decoded from. -/
theorem find?_of_mapM {α β : Type*} {decode : α → Option β} {p : α → Bool} {q : β → Bool}
    (hpq : ∀ a b, decode a = some b → q b = p a) {as : List α} {bs : List β}
    (h : as.mapM decode = some bs) : (as.find? p).map decode = (bs.find? q).map some := by
  induction as generalizing bs with
  | nil =>
    obtain rfl : [] = bs := by simpa using h
    rfl
  | cons a as ih =>
    simp only [List.mapM_cons, Option.bind_eq_bind, Option.bind_eq_some_iff, Option.pure_def,
      Option.some.injEq] at h
    obtain ⟨b, hb, bs, hbs, rfl⟩ := h
    rw [List.find?_cons, List.find?_cons, hpq a b hb]
    cases p a with
    | true => exact congrArg some hb
    | false => exact ih hbs

end Lib
