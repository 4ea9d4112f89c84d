import Duet.Domain.Piece
import Duet.Lib.Assoc
import Duet.Lib.Text
import Mathlib.Data.List.Nodup

/-!
# Grocery items

The items of a shared list, what is done to them, and the catalog that gives a name its aisle.

## Main definitions

* `GroceryItem` — an item, tombstones included.
* `ItemCatalog` — the catalog, over its own state; `StaticItemCatalog` — the one on the device.
* `GroceryCall` — the calls of the repository.
* `GrocerySeed.initialList` — the starter list.
-/

namespace Duet.Grocery

open Lib

structure Collaborator where
  id : String
  name : String
  colorValue : Int
  deriving DecidableEq, Repr

inductive ItemStatus where
  | needed | inCart | done
  deriving DecidableEq, Repr

inductive ItemFlag where
  | outOfStock | getExtra | urgent
  deriving DecidableEq, Repr

inductive ItemCategory where
  | produce | dairy | bakery | meat | seafood | frozen | pantry | snacks | beverages | household
  | other
  deriving DecidableEq, Repr

structure GroceryItem where
  id : String
  name : String
  category : ItemCategory
  addedBy : Collaborator
  addedAt : DateTime
  status : ItemStatus
  statusBy : Collaborator
  statusAt : DateTime
  updatedAt : DateTime
  flag : Option ItemFlag
  flagBy : Option Collaborator
  reactions : List Collaborator
  isDeleted : Bool
  deletedBy : Option Collaborator
  deriving DecidableEq, Repr

/-- The status after a status: needed, in a cart, done, and needed again. -/
def ItemStatus.next : ItemStatus → ItemStatus
  | needed => inCart
  | inCart => done
  | done => needed

namespace GroceryItem

/-! ## What is done to an item -/

/-- An item that is added. -/
def added (id name : String) (category : ItemCategory) (by_ : Collaborator) (now : DateTime) :
    GroceryItem where
  id := id
  name := name
  category := category
  addedBy := by_
  addedAt := now
  status := .needed
  statusBy := by_
  statusAt := now
  updatedAt := now
  flag := none
  flagBy := none
  reactions := []
  isDeleted := false
  deletedBy := none

def withStatus (item : GroceryItem) (status : ItemStatus) (by_ : Collaborator) (now : DateTime) :
    GroceryItem :=
  { item with
    status := status
    statusBy := by_
    statusAt := now
    updatedAt := now }

/-- Reactions are to a flag, and go with it. -/
def withFlag (item : GroceryItem) (flag : Option ItemFlag) (by_ : Collaborator) (now : DateTime) :
    GroceryItem :=
  { item with
    flag := flag
    flagBy := flag.map fun _ => by_
    reactions := if flag.isNone then [] else item.reactions
    updatedAt := now }

def reacted (item : GroceryItem) (by_ : Collaborator) : Bool := item.reactions.any (·.id == by_.id)

def withReaction (item : GroceryItem) (by_ : Collaborator) (now : DateTime) : GroceryItem :=
  { item with
    reactions := item.reactions ++ [by_]
    updatedAt := now }

def tombstoned (item : GroceryItem) (by_ : Collaborator) (now : DateTime) : GroceryItem :=
  { item with
    isDeleted := true
    deletedBy := some by_
    updatedAt := now }

def restored (item : GroceryItem) (now : DateTime) : GroceryItem :=
  { item with
    isDeleted := false
    deletedBy := none
    updatedAt := now }

/-- Bought, and still on the list. -/
def isDone (item : GroceryItem) : Bool := !item.isDeleted && item.status == .done

end GroceryItem

/-! ## The catalog -/

/-- A catalog with a state of its own. -/
structure ItemCatalog (κ : Type) where
  categorize : κ → String → ItemCategory
  remember : κ → String → κ

namespace StaticItemCatalog

/-- `_known`. -/
def known : List (String × ItemCategory) :=
  [("apples", .produce), ("bananas", .produce), ("avocado", .produce), ("tomatoes", .produce),
    ("onions", .produce), ("potatoes", .produce), ("carrots", .produce), ("lettuce", .produce),
    ("spinach", .produce), ("garlic", .produce), ("lemons", .produce), ("peppers", .produce),
    ("cucumber", .produce), ("broccoli", .produce), ("milk", .dairy), ("eggs", .dairy),
    ("butter", .dairy), ("cheese", .dairy), ("yogurt", .dairy), ("cream", .dairy),
    ("bread", .bakery), ("bagels", .bakery), ("croissants", .bakery), ("tortillas", .bakery),
    ("muffins", .bakery), ("chicken", .meat), ("beef", .meat), ("mince", .meat), ("bacon", .meat),
    ("sausages", .meat), ("ham", .meat), ("turkey", .meat), ("salmon", .seafood),
    ("tuna", .seafood), ("shrimp", .seafood), ("cod", .seafood), ("ice cream", .frozen),
    ("frozen peas", .frozen), ("frozen pizza", .frozen), ("fish fingers", .frozen),
    ("rice", .pantry), ("pasta", .pantry), ("flour", .pantry), ("sugar", .pantry),
    ("salt", .pantry), ("olive oil", .pantry), ("cereal", .pantry), ("beans", .pantry),
    ("peanut butter", .pantry), ("honey", .pantry), ("crisps", .snacks), ("chips", .snacks),
    ("chocolate", .snacks), ("biscuits", .snacks), ("nuts", .snacks), ("popcorn", .snacks),
    ("water", .beverages), ("coffee", .beverages), ("tea", .beverages), ("juice", .beverages),
    ("soda", .beverages), ("wine", .beverages), ("beer", .beverages),
    ("toilet paper", .household), ("paper towels", .household), ("dish soap", .household),
    ("detergent", .household), ("sponges", .household), ("foil", .household),
    ("bin bags", .household)]

/-- `_keywords`. -/
def keywords : List (String × ItemCategory) :=
  [("fruit", .produce), ("veg", .produce), ("berry", .produce), ("berries", .produce),
    ("salad", .produce), ("milk", .dairy), ("cheese", .dairy), ("yog", .dairy), ("bread", .bakery),
    ("roll", .bakery), ("chicken", .meat), ("beef", .meat), ("pork", .meat), ("fish", .seafood),
    ("prawn", .seafood), ("frozen", .frozen), ("pasta", .pantry), ("sauce", .pantry),
    ("oil", .pantry), ("snack", .snacks), ("choc", .snacks), ("water", .beverages),
    ("juice", .beverages), ("coffee", .beverages), ("tea", .beverages), ("soap", .household),
    ("clean", .household), ("paper", .household)]

def categorize (casing : Casing) (name : String) : ItemCategory :=
  let n := casing.toLowerCase (trim name)
  if n.isEmpty then .other
  else match known.find? (·.1 == n) with
    | some entry => entry.2
    | none => ((keywords.find? fun entry => containsText n entry.1).map (·.2)).getD .other

/-- How often each name was added. -/
def remember (casing : Casing) (frequency : Assoc String Nat) (name : String) : Assoc String Nat :=
  let n := casing.toLowerCase (trim name)
  if n.isEmpty then frequency else frequency.set n ((frequency.get n).getD 0 + 1)

end StaticItemCatalog

/-- The catalog on the device. -/
def StaticItemCatalog (casing : Casing) : ItemCatalog (Assoc String Nat) where
  categorize _ := StaticItemCatalog.categorize casing
  remember := StaticItemCatalog.remember casing

/-! ## The calls -/

/-- The calls of a repository. -/
inductive GroceryCall where
  | addItem (name : String) (by_ : Collaborator)
  | cycleStatus (itemId : String) (by_ : Collaborator)
  | setStatus (itemId : String) (status : ItemStatus) (by_ : Collaborator)
  | setFlag (itemId : String) (flag : Option ItemFlag) (by_ : Collaborator)
  | reactOnIt (itemId : String) (by_ : Collaborator)
  | deleteItem (itemId : String) (by_ : Collaborator)
  | restoreItem (itemId : String)
  | clearDone (by_ : Collaborator)
  deriving DecidableEq, Repr

namespace GroceryCall

/-- The item the call is about. -/
def itemId? : GroceryCall → Option String
  | addItem _ _ | clearDone _ => none
  | cycleStatus itemId _ | setStatus itemId _ _ | setFlag itemId _ _ | reactOnIt itemId _
  | deleteItem itemId _ | restoreItem itemId => some itemId

/-- The same call about another item. -/
def withItemId (itemId : String) : GroceryCall → GroceryCall
  | addItem name by_ => addItem name by_
  | cycleStatus _ by_ => cycleStatus itemId by_
  | setStatus _ status by_ => setStatus itemId status by_
  | setFlag _ flag by_ => setFlag itemId flag by_
  | reactOnIt _ by_ => reactOnIt itemId by_
  | deleteItem _ by_ => deleteItem itemId by_
  | restoreItem _ => restoreItem itemId
  | clearDone by_ => clearDone by_

/-- The item of a call after it. -/
def change (now : DateTime) : GroceryCall → GroceryItem → GroceryItem
  | addItem _ _, item | clearDone _, item => item
  | cycleStatus _ by_, item => item.withStatus item.status.next by_ now
  | setStatus _ status by_, item => item.withStatus status by_ now
  | setFlag _ flag by_, item => item.withFlag flag by_ now
  | reactOnIt _ by_, item => if item.reacted by_ then item else item.withReaction by_ now
  | deleteItem _ by_, item => item.tombstoned by_ now
  | restoreItem _, item => item.restored now

end GroceryCall

@[simp] theorem id_change (now : DateTime) (call : GroceryCall) (item : GroceryItem) :
    (call.change now item).id = item.id := by
  cases call with
  | reactOnIt _ by_ =>
    simp only [GroceryCall.change]
    split_ifs <;> rfl
  | _ => rfl

/-- A live item that has a name, in any case. -/
def GroceryItem.Named (casing : Casing) (name : String) (item : GroceryItem) : Prop :=
  item.isDeleted = false ∧ casing.toLowerCase item.name = casing.toLowerCase (trim name)

/-- The entry of a key that stands in a list once. -/
theorem find?_of_nodup_map {α : Type} {f : α → String} {xs : List α} (hnodup : (xs.map f).Nodup)
    {x : α} (hx : x ∈ xs) : xs.find? (f · == f x) = some x := by
  obtain ⟨y, hy⟩ : ∃ y, xs.find? (f · == f x) = some y :=
    Option.isSome_iff_exists.mp (List.find?_isSome.mpr ⟨x, hx, beq_self_eq_true (f x)⟩)
  have hkey : f y = f x := by simpa using List.find?_some hy
  rwa [List.inj_on_of_nodup_map hnodup (List.mem_of_find?_eq_some hy) hx hkey] at hy

/-- Why a call fails. -/
inductive GroceryError where
  | argumentError (message : String)
  | stateError (message : String)
  | notFound (itemId : String)
  | typeError
  deriving DecidableEq, Repr

/-! ## The starter list -/

namespace GrocerySeed

def you : Collaborator := ⟨"me", "You", 0xFF3B82F6⟩

def dana : Collaborator := ⟨"dana", "Dana", 0xFFEC4899⟩

def sam : Collaborator := ⟨"sam", "Sam", 0xFF10B981⟩

/-- So many minutes before. -/
def ago (now : DateTime) (minutes : Nat) : Option DateTime :=
  if h : (now.micros - minutes * 60000000).natAbs ≤ 8640000000000000000 then
    some ⟨now.micros - minutes * 60000000, h⟩
  else none

/-- An item added some minutes ago, and touched since or not. -/
def item (now : DateTime) (id name : String) (category : ItemCategory) (addedBy : Collaborator)
    (addedAgo : Nat) (status : ItemStatus) (statusAgo : Nat) : Option GroceryItem := do
  let added ← ago now addedAgo
  let touched ← ago now statusAgo
  pure { GroceryItem.added id name category addedBy added with
    status := status
    statusAt := touched
    updatedAt := touched }

/-- `initialList`. -/
def initialList (now : DateTime) : Option (List GroceryItem) :=
  [item now "seed_bananas" "Bananas" .produce sam 60 .needed 60,
    item now "seed_milk" "Milk" .dairy you 32 .needed 32,
    item now "seed_eggs" "Eggs" .dairy dana 28 .needed 28,
    item now "seed_bread" "Bread" .bakery you 26 .inCart 4,
    item now "seed_chicken" "Chicken" .meat you 20 .needed 20,
    item now "seed_toilet_paper" "Toilet paper" .household dana 18 .needed 18,
    item now "seed_coffee" "Coffee" .beverages sam 40 .done 9].mapM id

end GrocerySeed

end Duet.Grocery
