import PocketMips.Number.Literal

/-!
Values whose type is known only when they are read: settings, request bodies and what is in them.
-/
namespace PocketMips

open Number

/-- What an entry of a map goes by. -/
inductive Value.Key
  | text (s : String)
  | null
  | bool (b : Bool)
  | int (i : Int)
  | float (x : Binary64)
  /-- A day or a moment, by the text that messages show. -/
  | time (shown : String)
  deriving DecidableEq, Repr

instance : Coe String Value.Key := ⟨.text⟩

/-- A value of a settings file or a request body; the entries of a map keep their order. -/
inductive Value
  | null
  | bool (b : Bool)
  | int (i : Int)
  | float (x : Binary64)
  | text (s : String)
  /-- A day or a moment, by the text that messages show. -/
  | time (shown : String)
  | list (items : List Value)
  | map (entries : List (Value.Key × Value))
  deriving Inhabited, Repr

namespace Value

/-- The entries of a map. -/
abbrev Entries := List (Key × Value)

/-- A key as a value. -/
def Key.value : Key → Value
  | text s => .text s
  | null => .null
  | bool b => .bool b
  | int i => .int i
  | float x => .float x
  | time shown => .time shown

/-- The key that stands for all keys of the same number: truth values count as zero and one. -/
def Key.number : Key → Key
  | bool b => .int (if b then 1 else 0)
  | float x =>
    match x.integer? with
    | some i => .int i
    | none => .float x
  | k => k

/-- A value as a key; collections are none. -/
def key? : Value → Option Key
  | text s => some (.text s)
  | null => some .null
  | bool b => some (.bool b)
  | int i => some (.int i)
  | float x => some (.float x)
  | time shown => some (.time shown)
  | list _ | map _ => none

/-- Whether a value counts as absent: null, false, a zero, or something empty. -/
def isEmpty : Value → Bool
  | null => true
  | bool b => !b
  | int i => i = 0
  | float x => x.bits.setWidth 63 = 0
  | text s => s = ""
  | time _ => false
  | list items => items.isEmpty
  | map entries => entries.isEmpty

/-- Sets the entry of a key, in its place if the key is there. -/
def insert (key : Key) (v : Value) : Entries → Entries
  | [] => [(key, v)]
  | e :: es => if e.1 = key then (key, v) :: es else e :: insert key v es

/-- The entry of a key. -/
def lookup (key : Key) (entries : Entries) : Option Value :=
  (entries.find? (·.1 = key)).map (·.2)

/-- The entries of the first map with those of the second set over them. -/
def overlay (base upper : Entries) : Entries :=
  upper.foldl (fun es e => insert e.1 e.2 es) base

/-- The text of a key inside a message. -/
def Key.shown : Key → List Char
  | null => "None".toList
  | bool b => (if b then "True" else "False").toList
  | int i => decimal i
  | float x => x.shortest
  | text s => Text.quoted s.toList
  | time shown => shown.toList

mutual
/-- The text of a value inside a message. -/
def shown : Value → List Char
  | null => "None".toList
  | bool b => (if b then "True" else "False").toList
  | int i => decimal i
  | float x => x.shortest
  | text s => Text.quoted s.toList
  | time shown => shown.toList
  | list items => '[' :: shownItems items ++ [']']
  | map entries => '\x7b' :: shownEntries entries ++ ['\x7d']

/-- The texts of items with commas between them. -/
def shownItems : List Value → List Char
  | [] => []
  | [v] => shown v
  | v :: w :: vs => shown v ++ ", ".toList ++ shownItems (w :: vs)

/-- The texts of entries with commas between them. -/
def shownEntries : List (Key × Value) → List Char
  | [] => []
  | [(k, v)] => k.shown ++ ": ".toList ++ shown v
  | (k, v) :: e :: es => k.shown ++ ": ".toList ++ shown v ++ ", ".toList ++ shownEntries (e :: es)
end

/-- The text of a value on its own, where a text has no quotes. -/
def plain : Value → List Char
  | text s => s.toList
  | v => v.shown

/-- Whether an integer is not too long to be written. -/
def isWritable (i : Int) : Bool := i.natAbs < tens maxDigits

/-- Whether a key is not too long to be written. -/
def Key.isWritable : Key → Bool
  | int i => Value.isWritable i
  | text _ | null | bool _ | float _ | time _ => true

mutual
/-- Whether all integers in a value are short enough to be written. -/
def isShowable : Value → Bool
  | int i => isWritable i
  | list items => areShowable items
  | map entries => areShowableEntries entries
  | null | bool _ | float _ | text _ | time _ => true

/-- Whether all integers in items are short enough to be written. -/
def areShowable : List Value → Bool
  | [] => true
  | v :: vs => isShowable v && areShowable vs

/-- Whether all integers in entries are short enough to be written. -/
def areShowableEntries : List (Key × Value) → Bool
  | [] => true
  | (k, v) :: es => k.isWritable && isShowable v && areShowableEntries es
end

/-- The message about an integer that is too long to be written. -/
def lengthMessage : String :=
  s!"Exceeds the limit ({maxDigits} digits) for integer string conversion; " ++
    "use sys.set_int_max_str_digits() to increase the limit"

/-- A message that shows a value; one about the length of integers if the value cannot be written. -/
def message (before : String) (v : Value) (after : String) : String :=
  if v.isShowable then before ++ String.ofList v.shown ++ after else lengthMessage

theorem lookup_insert_self (key : Key) (v : Value) (es : Entries) :
    lookup key (insert key v es) = some v := by
  induction es with
  | nil => simp [insert, lookup]
  | cons e es ih =>
    by_cases h : e.1 = key
    · simp [insert, lookup, h]
    · simp only [insert, h, ↓reduceIte]
      simpa [lookup, h] using ih

theorem lookup_insert_ne {key other : Key} (v : Value) (es : Entries)
    (h : other ≠ key) : lookup other (insert key v es) = lookup other es := by
  induction es with
  | nil => simp [insert, lookup, Ne.symm h]
  | cons e es ih =>
    by_cases hk : e.1 = key
    · simp [insert, lookup, hk, Ne.symm h]
    · by_cases ho : e.1 = other
      · simp [insert, lookup, ho, h]
      · simp only [insert, hk, ↓reduceIte]
        simpa [lookup, ho] using ih

end Value

end PocketMips
