/-! How large an index can be. There is room for texts of any length here, but the number of copies
of a text in a row has to be an index. -/

namespace LocksetLang

/-- Whether a number can be an index, which has 64 bits with a sign. -/
def isIndex (n : Int) : Bool := -0x8000000000000000 ≤ n && n < 0x8000000000000000

def noIndexMessage : String := "cannot fit 'int' into an index-sized integer"

end LocksetLang
