import ProofProse.Command.Signature
import ProofProse.Text.Search

/-! # Classes of environments

The name of an environment decides how its content is read. Stars at the end of the name count for
proofs only. -/

namespace ProofProse

/-- How the content of an environment is read. -/
inductive EnvironmentClass where
  /-- As a proof. -/
  | proof
  /-- As mathematics: skipped, and a placeholder stands for it. -/
  | math
  /-- Skipped without a trace. -/
  | discarded
  /-- Skipped without being interpreted. -/
  | verbatim
  /-- As the text around it; the operands of the environment are dropped. -/
  | transparent (signature : Signature)
  deriving DecidableEq

namespace EnvironmentClass

/-- Mathematics. -/
def mathNames : List String :=
  ["equation", "align", "alignat", "gather", "multline", "flalign", "eqnarray", "displaymath",
   "math", "array", "cases", "dcases", "matrix", "pmatrix", "bmatrix", "Bmatrix", "vmatrix",
   "Vmatrix", "smallmatrix", "split", "aligned", "alignedat", "gathered", "subequations", "dmath",
   "dgroup", "empheq", "IEEEeqnarray", "xalignat", "xxalignat"]

/-- Figures, tables, lists of works and front matter. -/
def discardedNames : List String :=
  ["figure", "table", "tabular", "tabularx", "tabulary", "longtable", "supertabular",
   "thebibliography", "tikzpicture", "picture", "pspicture", "algorithm", "algorithmic",
   "algorithm2e", "wrapfigure", "wraptable", "subfigure", "sidewaysfigure", "sidewaystable",
   "tikzcd", "xy", "diagram", "tabbing", "filecontents", "keyword", "keywords", "abstract",
   "acknowledgments", "acknowledgements"]

/-- Program text and comments. -/
def verbatimNames : List String :=
  ["verbatim", "Verbatim", "lstlisting", "minted", "comment", "alltt", "code", "BVerbatim",
   "LVerbatim"]

/-- Environments of text that take operands. -/
def operands : List (String × Signature) :=
  [("minipage", [.optional, .mandatory]), ("list", [.mandatory, .mandatory]),
   ("enumerate", [.optional]), ("itemize", [.optional]), ("description", [.optional]),
   ("multicols", [.mandatory]), ("thmbox", [.optional]), ("center", [])]

end EnvironmentClass

/-- A name that opens a proof: one that starts with the word, or one of a few others. -/
def isProofName (name : String) : Bool :=
  "proof".toList.isPrefixOf name.toList || ["IEEEproof", "pf", "pf*"].contains name

/-- A name without the stars at its end. -/
def unstarred (name : String) : String :=
  String.ofList (name.toList.reverse.dropWhile (· == '*')).reverse

/-- The class of an environment. -/
def EnvironmentClass.ofName (name : String) : EnvironmentClass :=
  let base := unstarred name
  if isProofName name then .proof
  else if mathNames.contains base then .math
  else if discardedNames.contains base then .discarded
  else if verbatimNames.contains base then .verbatim
  else .transparent ((operands.lookup base).getD [])

end ProofProse
