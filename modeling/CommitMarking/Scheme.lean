import CommitMarking.Eval

namespace CommitMarking.Scheme

def sizeName : String := "Commit Size"

def small : Int64 := 500

def large : Int64 := 1000

def bySize : Expr .int :=
  .cond (.compare .less (.var .int sizeName) (.int small))
    (.int 1)
    (.cond (.compare .greater (.var .int sizeName) (.int large))
      (.div (.var .int sizeName) (.int (-large)))
      (.int 0))

/-- A commit that does not build or pass its tests loses a mark, the first one earns nothing, and
any other is marked by its size. -/
def standard (build test : Generator .bool) : Expr .int :=
  .cond (.container (.andAll build test))
    (.cond .first (.int 0) (.letIn sizeName (.abs .size) bySize))
    (.int (-1))

end CommitMarking.Scheme
