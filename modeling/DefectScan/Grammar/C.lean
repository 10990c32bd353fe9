import DefectScan.Grammar.C.Preprocessor
import DefectScan.Grammar.C.Declaration
import DefectScan.Grammar.C.TypeSpecifier
import DefectScan.Grammar.C.Expression

/-!
# The grammar of C

The definitions in one list. The order is part of the grammar: where two readings of a text are
equally good, the one whose symbols come first is kept.
-/

namespace DefectScan.Grammar.C

def definitions : Definitions :=
  items ++ preprocessor ++ declarations ++ declarators ++ types ++ statements ++ operators
    ++ assembly ++ primaries ++ literals

end DefectScan.Grammar.C
