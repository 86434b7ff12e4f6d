import Mathlib.Algebra.Order.Ring.Nat
import Mathlib.Data.List.Basic

/-!
# The serialisable types

The types the library serialises, as data: the scalars, and the composite types built from
them to any depth. A `type_list` carries a name with each entry, because the library uses
one template for two things – the plain types of a tuple or a variant, where the name is
not used, and the `field<Name, T>`s of a record.

A record is given by its `fields`, the inherited ones first, and by its `bases`, from most
to least derived, each as the number of fields it has: the fields of a base are the first
ones of the record derived from it.

Sizes come twice. `SerialisePP.Ty.size` is the number of bytes of the fixed section, a
mathematical integer; what the library has is the constant `fixed_data_size_v`, computed in
`std::size_t`, which is this number modulo the range of that type
(`SerialisePP.fixedDataSize_eq` in `SerialisePP.Platform`).
-/

namespace SerialisePP

/-- The scalar types. An integer type is given by its size in bytes. -/
inductive Scalar
  /-- `null`. -/
  | null
  /-- `std::byte`. -/
  | byte
  /-- `bool`. -/
  | bool
  /-- An unsigned integer type. -/
  | unsigned (bytes : ℕ)
  /-- A signed integer type. -/
  | signed (bytes : ℕ)
  /-- `float`, which has to be IEEE-754 binary32. -/
  | float
  /-- `double`, which has to be IEEE-754 binary64. -/
  | double
deriving DecidableEq, Repr

mutual

/-- **The serialisable types.** -/
inductive Ty
  /-- A scalar. -/
  | scalar (s : Scalar)
  /-- `static_array<T, Size>`. -/
  | staticArray (element : Ty) (size : ℕ)
  /-- `dynamic_array<T>`. -/
  | dynamicArray (element : Ty)
  /-- `pair<T1, T2>`. -/
  | pair (first second : Ty)
  /-- `tuple<Ts...>`. -/
  | tuple (elements : TypeList)
  /-- `optional<T>`. -/
  | optional (value : Ty)
  /-- `variant<Ts...>`. -/
  | variant (types : TypeList)
  /-- `record<Fs...>` or `record<base<B>, Fs...>`, by all its fields and by how many of them
  each of its bases has. -/
  | record (fields : TypeList) (bases : List ℕ)

/-- `type_list`, each entry with a name. -/
inductive TypeList
  /-- The empty list. -/
  | nil
  /-- An entry, and the rest of the list. -/
  | cons (name : String) (head : Ty) (tail : TypeList)

end

/-- An unsigned integer type. -/
abbrev Ty.unsigned (bytes : ℕ) : Ty := .scalar (.unsigned bytes)

/-- `data_offset_t`, a `std::uint32_t`. -/
abbrev Ty.dataOffset : Ty := .unsigned 4

/-- `dynamic_array_size_t`, a `std::uint32_t`. -/
abbrev Ty.dynamicArraySize : Ty := .unsigned 4

/-- `variant_index_t`, a `std::uint16_t`. -/
abbrev Ty.variantIndex : Ty := .unsigned 2

/-- The largest `data_offset_t`. -/
def maxDataOffset : ℕ := 2 ^ 32 - 1

/-- The most elements a `dynamic_array` can have. -/
def maxDynamicArraySize : ℕ := 2 ^ 32 - 1

/-- The most alternatives a `variant` can have. -/
def maxVariantTypes : ℕ := 2 ^ 16 - 1

/-! ### Lists of types -/

namespace TypeList

/-- A list of plain types. -/
def ofTypes : List Ty → TypeList
  | [] => .nil
  | t :: ts => .cons "" t (ofTypes ts)

/-- `type_list::size`. -/
def length : TypeList → ℕ
  | .nil => 0
  | .cons _ _ ts => ts.length + 1

/-- `type_list_element`: the type at an index; none if the index is out of bounds, where the
source is ill-formed. -/
def element : TypeList → ℕ → Option Ty
  | .nil, _ => none
  | .cons _ t _, 0 => some t
  | .cons _ _ ts, i + 1 => ts.element i

/-- `indexed_field_name`: the name of the field at an index. -/
def fieldName : TypeList → ℕ → Option String
  | .nil, _ => none
  | .cons name _ _, 0 => some name
  | .cons _ _ ts, i + 1 => ts.fieldName i

/-- `contains_field`: whether some field has the name. -/
def containsField : TypeList → String → Bool
  | .nil, _ => false
  | .cons name _ ts, n => name == n || ts.containsField n

/-- `all_fields_unique`: whether all fields have distinct names. -/
def allFieldsUnique : TypeList → Bool
  | .nil => true
  | .cons name _ ts => !ts.containsField name && ts.allFieldsUnique

/-- `field_type`: the type of the first field with the name. -/
def fieldType : TypeList → String → Option Ty
  | .nil, _ => none
  | .cons name t ts, n => if name == n then some t else ts.fieldType n

/-- The first `n` entries: the fields of a base record. -/
def take : ℕ → TypeList → TypeList
  | 0, _ => .nil
  | _ + 1, .nil => .nil
  | n + 1, .cons name t ts => .cons name t (ts.take n)

end TypeList

/-! ### Sizes -/

/-- The size of a scalar's fixed data. It has no variable data. -/
def Scalar.size : Scalar → ℕ
  | .null => 0
  | .byte => 1
  | .bool => 1
  | .unsigned n => n
  | .signed n => n
  | .float => 4
  | .double => 8

mutual

/-- **The size of the fixed section**, as a mathematical integer. -/
def Ty.size : Ty → ℕ
  | .scalar s => s.size
  | .staticArray t n => t.size * n
  | .dynamicArray _ => 8
  | .pair a b => a.size + b.size
  | .tuple ts => ts.size
  | .optional _ => 4
  | .variant _ => 6
  | .record fs _ => fs.size

/-- The size of the fixed sections of a list of types, side by side. -/
def TypeList.size : TypeList → ℕ
  | .nil => 0
  | .cons _ t ts => t.size + ts.size

end

/-! ### The classification of types -/

mutual

/-- `fixed_size_serialisable`: whether the serialiser has the overload that takes a span
instead of a buffer, that is, never uses variable data. -/
def Ty.isFixedSize : Ty → Bool
  | .scalar _ => true
  | .staticArray t n => t.isFixedSize || n == 0
  | .dynamicArray _ => false
  | .pair a b => a.isFixedSize && b.isFixedSize
  | .tuple ts => ts.isFixedSize
  | .optional _ => false
  | .variant ts => ts.length == 0
  | .record fs _ => fs.isFixedSize

/-- Whether all types of a list are fixed-size. -/
def TypeList.isFixedSize : TypeList → Bool
  | .nil => true
  | .cons _ t ts => t.isFixedSize && ts.isFixedSize

end

mutual

/-- **Well-formed types**: at every level, a variant has at most `max_variant_types`
alternatives, and the field names of a record are pairwise distinct. These are the
constraints the declarations of the two state. The size of a scalar is that of a C++ type,
which fits in any `std::size_t`. -/
def Ty.wellFormed : Ty → Bool
  | .scalar s => decide (s.size < 2 ^ 32)
  | .staticArray t _ => t.wellFormed
  | .dynamicArray t => t.wellFormed
  | .pair a b => a.wellFormed && b.wellFormed
  | .tuple ts => ts.wellFormed
  | .optional t => t.wellFormed
  | .variant ts => decide (ts.length ≤ maxVariantTypes) && ts.wellFormed
  | .record fs _ => fs.allFieldsUnique && fs.wellFormed

/-- Well-formedness of every type of a list. -/
def TypeList.wellFormed : TypeList → Bool
  | .nil => true
  | .cons _ t ts => t.wellFormed && ts.wellFormed

end

end SerialisePP
