import Ambient.Doclet

/-!
# Tables of doclets

The doclets of one documentation run, in the order of the dump.
-/

namespace Ambient
namespace Table

def remove (test : Doclet -> Bool) (table : List Doclet) : List Doclet × Nat :=
  let kept := table.filter fun d => !test d
  (kept, table.length - kept.length)

/-- The table without hidden doclets: those with a flag that hides them, one
flag after the other, and then the private ones, unless they are asked for. -/
def stripHidden (includePrivate : Bool) (table : List Doclet) : List Doclet :=
  let shown := ["undocumented", "ignore", "inherited"].foldl
    (fun kept flag => (remove (Doclet.hasFlag flag) kept).1) table
  if includePrivate then shown else (remove Doclet.isPrivate shown).1

end Table
end Ambient
