import Irida.Binfmt.Binary

/-!
# The parser

`lief_parser.cpp` takes over what LIEF finds in a PE file.  LIEF gives the entry point as an
absolute address and all other addresses relative to the image base, so that the parser moves the
latter.
-/

namespace Irida.Binfmt

/-! ## What LIEF gives -/

/-- The values that are read of `LIEF::PE::Section`. -/
structure LiefSection where
  name : String
  virtualAddress : U64
  virtualSize : U64
  pointertoRawData : U64
  sizeofRawData : U64
  memRead : Bool
  memWrite : Bool
  memExecute : Bool
  deriving DecidableEq, Repr

/-- The values that are read of `LIEF::PE::ImportEntry`. -/
structure LiefImportEntry where
  name : String
  iatAddress : U64
  deriving DecidableEq, Repr

/-- The values that are read of `LIEF::PE::Import`. -/
structure LiefImport where
  name : String
  entries : List LiefImportEntry
  deriving DecidableEq, Repr

/-- The values that are read of `LIEF::PE::ExportEntry`. -/
structure LiefExportEntry where
  name : String
  address : U64
  ordinal : U32
  deriving DecidableEq, Repr

/-- The values that are read of `LIEF::PE::Symbol`. -/
structure LiefSymbol where
  name : String
  value : U64
  deriving DecidableEq, Repr

/-- The values that are read of `LIEF::PE::Binary`.  There are exports if it says so and gives
them. -/
structure LiefBinary where
  entrypoint : U64
  imagebase : U64
  isPe32Plus : Bool
  sections : List LiefSection
  imports : List LiefImport
  exports : Option (List LiefExportEntry)
  symbols : List LiefSymbol
  deriving DecidableEq, Repr

/-- What comes of `LIEF::PE::Parser::parse`: a binary, the null pointer, or an exception with a text
if it is a `std::exception`. -/
inductive LiefOutcome
  | binary (binary : LiefBinary)
  | null
  | exception (what : Option String)
  deriving DecidableEq, Repr

/-! ## What the parser makes of it -/

/-- `Section`, with the members that only the panels read. -/
structure FileSection extends Section where
  name : String
  perms : Byte
  deriving DecidableEq, Repr

/-- `Import`, with the member that only the panels read. -/
structure FileImport extends Import where
  library : String
  deriving DecidableEq, Repr

/-- `Export`, with the member that only the panels read. -/
structure FileExport extends Export where
  ordinal : U32
  deriving DecidableEq, Repr

/-- `Symbol`, with the member that only the panels read. -/
structure FileSymbol extends Symbol where
  kind : String
  deriving DecidableEq, Repr

/-- `BinaryInfo`, with all its members. -/
structure FileInfo where
  path : String := ""
  format : String := ""
  entryPoint : U64 := 0
  imageBase : U64 := 0
  is64bit : Bool := false
  sections : List FileSection := []
  imports : List FileImport := []
  exports : List FileExport := []
  symbols : List FileSymbol := []
  deriving DecidableEq, Repr

/-- The members that the analysis and the reads of memory go by. -/
def FileInfo.program (info : FileInfo) : ProgramInfo where
  imageBase := info.imageBase
  sections := info.sections.map FileSection.toSection
  entryPoint := info.entryPoint
  imports := info.imports.map FileImport.toImport
  exports := info.exports.map FileExport.toExport
  symbols := info.symbols.map FileSymbol.toSymbol

/-- `map_perms`, with the bits of `irida.h`. -/
def mapPerms (sec : LiefSection) : Byte :=
  let perms : Byte := 0
  let perms := if sec.memRead then perms ||| 4 else perms
  let perms := if sec.memWrite then perms ||| 2 else perms
  if sec.memExecute then perms ||| 1 else perms

/-- `map_section`. -/
def mapSection (sec : LiefSection) : FileSection where
  name := sec.name
  vaddr := sec.virtualAddress
  vsize := sec.virtualSize
  offset := sec.pointertoRawData
  size := sec.sizeofRawData
  perms := mapPerms sec

/-- `collect_imports`. -/
def collectImports (binary : LiefBinary) : List FileImport :=
  binary.imports.flatMap fun imp => imp.entries.map fun entry =>
    { name := entry.name, library := imp.name, iatAddr := entry.iatAddress }

/-- `collect_exports`. -/
def collectExports (binary : LiefBinary) : List FileExport :=
  match binary.exports with
  | none => []
  | some entries => entries.map fun entry =>
    { name := entry.name, addr := entry.address, ordinal := entry.ordinal }

/-- `collect_symbols`. -/
def collectSymbols (binary : LiefBinary) : List FileSymbol :=
  binary.symbols.map fun sym => { name := sym.name, addr := sym.value, kind := "coff" }

/-- `LiefParser::parse_file`. -/
def parseFile (path : String) : LiefOutcome → Result FileInfo
  | .null => .error ("failed to parse PE file: " ++ path)
  | .exception (some what) => .error ("LIEF exception: " ++ what)
  | .exception none => .error ("LIEF exception: unknown error parsing " ++ path)
  | .binary binary =>
    let base := binary.imagebase
    .ok {
      path := path
      format := "PE"
      entryPoint := binary.entrypoint
      imageBase := base
      is64bit := binary.isPe32Plus
      sections := (binary.sections.map mapSection).map fun sec =>
        { sec with vaddr := sec.vaddr + base }
      imports := (collectImports binary).map fun imp => { imp with iatAddr := imp.iatAddr + base }
      exports := (collectExports binary).map fun exp => { exp with addr := exp.addr + base }
      symbols := (collectSymbols binary).map fun sym => { sym with addr := sym.addr + base } }

end Irida.Binfmt
