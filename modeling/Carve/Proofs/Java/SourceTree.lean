import Carve.Indexing
import Carve.Proofs.Java.Layout.Tree

/-!
# Files with their trees

What is read from a file is read from a syntax tree of its text. Of that tree it matters that its
names are single words and that its nodes stand one after the other in the text. The grammar makes
such a tree of any text.
-/

namespace Carve

/-- The file as it is read on its own. -/
def SourceText.read (s : SourceText) : SourceFile := Java.readSource s.text s.path s.provenance

namespace Java

/-- A syntax tree of a text. -/
structure Tree (source : List Char) where
  root : Node
  tidy : Tidy source root
  stands : Stands source 0 root.children (Text.byteLength source)

/-- The tree that the grammar makes. -/
def Tree.ofText (source : List Char) : Tree source where
  root := parse source
  tidy := parse_tidy source
  stands := parse_stands source

/-- A file with a syntax tree of its text. -/
structure SourceTree extends SourceText where
  tree : Tree text.toList

instance : Coe SourceTree SourceText := ⟨SourceTree.toSourceText⟩

namespace SourceTree

variable (s : SourceTree)

def start : Reader := .start s.tree.root s.text s.path s.provenance

def read : SourceFile := readTree s.tree.root s.text s.path s.provenance

theorem topTypes_tidy : ∀ n ∈ s.tree.root.topTypes, Tidy s.text.toList n := fun n hn =>
  s.tree.tidy.children n (List.mem_filter.mp hn).1

end SourceTree

end Java

def SourceText.parsed (s : SourceText) : Java.SourceTree := ⟨s, .ofText s.text.toList⟩

theorem SourceText.read_parsed (s : SourceText) : s.parsed.read = s.read := rfl

end Carve
