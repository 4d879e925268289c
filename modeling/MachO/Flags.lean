namespace MachO

/-- A set of bits with a name. -/
structure NamedBits where
  name : String
  bits : UInt32
  deriving DecidableEq, Repr

/-- The names of the entries of a table that lie wholly in a word, in the order of the table. -/
def namesWithin (table : List NamedBits) (word : UInt32) : List String :=
  (table.filter fun entry => word &&& entry.bits == entry.bits).map (·.name)

def flagText (names : List String) : String :=
  if names.isEmpty then "(empty)" else " | ".intercalate names

structure SectionFlags where
  bits : UInt32
  deriving DecidableEq, Repr, Inhabited

namespace SectionFlags

/-- The names of the section types, from type zero on. -/
def typeNames : List String :=
  ["S_REGULAR", "S_ZEROFILL", "S_CSTRING_LITERALS", "S_4BYTE_LITERALS", "S_8BYTE_LITERALS",
    "S_LITERAL_POINTERS", "S_NON_LAZY_SYMBOL_POINTERS", "S_LAZY_SYMBOL_POINTERS",
    "S_SYMBOL_STUBS", "S_MOD_INIT_FUNC_POINTERS", "S_MOD_TERM_FUNC_POINTERS", "S_COALESCED",
    "S_GB_ZEROFILL", "S_INTERPOSING", "S_16BYTE_LITERALS", "S_DTRACE_DOF",
    "S_LAZY_DYLIB_SYMBOL_POINTERS", "S_THREAD_LOCAL_REGULAR", "S_THREAD_LOCAL_ZEROFILL",
    "S_THREAD_LOCAL_VARIABLES", "S_THREAD_LOCAL_VARIABLE_POINTERS",
    "S_THREAD_LOCAL_INIT_FUNCTION_POINTERS"]

def typeName? (type : UInt32) : Option String := typeNames[type.toNat]?

/-- The type of sections whose bytes are zero and stand in memory only. -/
def zeroFill : UInt32 := 0x1

def nonLazySymbolPointers : UInt32 := 0x6

def lazySymbolPointers : UInt32 := 0x7

def symbolStubs : UInt32 := 0x8

def lazyLibrarySymbolPointers : UInt32 := 0x10

def attributeTable : List NamedBits :=
  [⟨"USR", 0xFF000000⟩, ⟨"PURE_INSTRUCTIONS", 0x80000000⟩, ⟨"NO_TOC", 0x40000000⟩,
    ⟨"STRIP_STATIC_SYMS", 0x20000000⟩, ⟨"NO_DEAD_STRIP", 0x10000000⟩,
    ⟨"LIVE_SUPPORT", 0x08000000⟩, ⟨"SELF_MODIFYING_CODE", 0x04000000⟩, ⟨"DEBUG", 0x02000000⟩,
    ⟨"SYS", 0x00FFFF00⟩, ⟨"SOME_INSTRUCTIONS", 0x00000400⟩, ⟨"EXT_RELOC", 0x00000200⟩,
    ⟨"LOC_RELOC", 0x00000100⟩]

def type (f : SectionFlags) : UInt32 := f.bits &&& 0x000000FF

def attributes (f : SectionFlags) : UInt32 := f.bits &&& 0xFFFFFF00

/-- The section is filled with zeros on demand. -/
def isZeroFill (f : SectionFlags) : Bool := f.type == zeroFill

/-- The first reserved field is an index into the table of indirect symbols. -/
def indexesSymbols (f : SectionFlags) : Bool :=
  f.type == symbolStubs || f.type == lazySymbolPointers || f.type == lazyLibrarySymbolPointers ||
    f.type == nonLazySymbolPointers

/-- The second reserved field is the size of a stub. -/
def holdsStubs (f : SectionFlags) : Bool := f.type == symbolStubs

def attributeNames (f : SectionFlags) : List String := namesWithin attributeTable f.attributes

end SectionFlags

/-- The flags of a segment: four known bits. -/
structure SegmentFlags where
  bits : BitVec 4
  deriving DecidableEq, Repr, Inhabited

namespace SegmentFlags

def ofWord (word : UInt32) : SegmentFlags := ⟨word.toBitVec.setWidth 4⟩

def toWord (f : SegmentFlags) : UInt32 := ⟨f.bits.setWidth 32⟩

def table : List NamedBits :=
  [⟨"HIGHVM", 0x1⟩, ⟨"FVMLIB", 0x2⟩, ⟨"NORELOC", 0x4⟩, ⟨"PROTECTED_VERSION_1", 0x8⟩]

def names (f : SegmentFlags) : List String := namesWithin table f.toWord

theorem ofWord_toWord (f : SegmentFlags) : ofWord f.toWord = f := by
  obtain ⟨bits⟩ := f
  simp [ofWord, toWord]

end SegmentFlags

end MachO
