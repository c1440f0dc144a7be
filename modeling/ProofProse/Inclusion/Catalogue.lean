import Std.Data.HashSet
import ProofProse.Text.Blank
import ProofProse.Text.Letter
import ProofProse.Text.Search

/-! # The catalogue of distributed files

Files that come with every installation, and styles of publishers known to be harmless, are never
read. A catalogue is a set of file names in small letters; a target is known when its last part is
in the catalogue, with or without an ending. -/

namespace ProofProse

/-- A set of names of files that are never read. -/
structure Catalogue where
  /-- The names, in small letters. -/
  names : Std.HashSet String

namespace Catalogue

/-- Styles that are passed over whatever the catalogue holds. -/
def ignoredStyles : List String :=
  ["jheppub", "jcappub", "aa", "aas_macros", "mn2e", "mnras", "emulateapj", "aipproc", "iopart",
   "elsart", "svmult", "svglov3", "spmpsci", "lipics", "lipics-v2019", "lipics-v2021", "acmart",
   "sig-alternate", "jmlr2e", "neurips_2019", "neurips_2020", "neurips_2021", "icml2019",
   "icml2020", "iclr2020_conference", "nips_2017", "colt2019", "aistats2020", "compositio",
   "imsart", "imsart-number", "epl2", "ptephy", "sn-jnl", "arxiv", "preprint"]

/-- The files that come with every installation. -/
def distributedFiles : List String :=
  ["article.cls", "report.cls", "book.cls", "letter.cls", "proc.cls", "slides.cls", "amsart.cls",
   "amsbook.cls", "amsproc.cls", "beamer.cls", "memoir.cls", "scrartcl.cls", "scrreprt.cls",
   "scrbook.cls", "revtex4.cls", "revtex4-1.cls", "revtex4-2.cls", "elsarticle.cls", "llncs.cls",
   "svjour3.cls", "ieeetran.cls", "aastex.cls", "aastex6.cls", "aastex631.cls", "jfm.cls",
   "siamart.cls", "siamltex.cls", "amsdtx.cls", "ltxdoc.cls", "standalone.cls", "size10.clo",
   "size11.clo", "size12.clo", "bk10.clo", "bk11.clo", "bk12.clo", "leqno.clo", "fleqn.clo",
   "latexsym.sty", "amsmath.sty", "amssymb.sty", "amsthm.sty", "amsfonts.sty", "amscd.sty",
   "amsbsy.sty", "amsopn.sty", "amstext.sty", "amsxtra.sty", "amsgen.sty", "amsrefs.sty",
   "eucal.sty", "eufrak.sty", "mathrsfs.sty", "mathtools.sty", "bm.sty", "dsfont.sty", "bbm.sty",
   "stmaryrd.sty", "wasysym.sty", "mathabx.sty", "mathdots.sty", "esint.sty", "upgreek.sty",
   "txfonts.sty", "pxfonts.sty", "ifthen.sty", "ifpdf.sty", "ifxetex.sty", "ifluatex.sty",
   "ifdraft.sty", "ifmtarg.sty", "calc.sty", "xspace.sty", "xparse.sty", "expl3.sty",
   "etoolbox.sty", "xstring.sty", "keyval.sty", "kvoptions.sty", "kvsetkeys.sty", "pgfkeys.sty",
   "xkeyval.sty", "fixltx2e.sty", "inputenc.sty", "fontenc.sty", "textcomp.sty", "babel.sty",
   "polyglossia.sty", "fontspec.sty", "microtype.sty", "lmodern.sty", "times.sty", "mathptmx.sty",
   "mathpazo.sty", "palatino.sty", "helvet.sty", "courier.sty", "charter.sty", "newtxtext.sty",
   "newtxmath.sty", "libertine.sty", "euler.sty", "eulervm.sty", "concmath.sty", "fourier.sty",
   "cmbright.sty", "tgtermes.sty", "tgpagella.sty", "exscale.sty", "relsize.sty", "pifont.sty",
   "marvosym.sty", "bbding.sty", "fontawesome.sty", "geometry.sty", "fullpage.sty", "a4wide.sty",
   "a4.sty", "vmargin.sty", "anysize.sty", "setspace.sty", "parskip.sty", "fancyhdr.sty",
   "titlesec.sty", "titling.sty", "titletoc.sty", "tocloft.sty", "abstract.sty", "appendix.sty",
   "multicol.sty", "ragged2e.sty", "indentfirst.sty", "lscape.sty", "pdflscape.sty",
   "changepage.sty", "footmisc.sty", "endnotes.sty", "enumitem.sty", "enumerate.sty",
   "paralist.sty", "mdwlist.sty", "verbatim.sty", "fancyvrb.sty", "listings.sty", "minted.sty",
   "comment.sty", "alltt.sty", "url.sty", "hyperref.sty", "cleveref.sty", "varioref.sty",
   "nameref.sty", "bookmark.sty", "xr.sty", "xr-hyper.sty", "showkeys.sty", "showlabels.sty",
   "lineno.sty", "draftwatermark.sty", "todonotes.sty", "fixme.sty", "soul.sty", "ulem.sty",
   "cancel.sty", "xcolor.sty", "color.sty", "colortbl.sty", "framed.sty", "mdframed.sty",
   "tcolorbox.sty", "thmtools.sty", "ntheorem.sty", "theorem.sty", "amsaddr.sty", "authblk.sty",
   "datetime.sty", "csquotes.sty", "hyphenat.sty", "nicefrac.sty", "units.sty", "siunitx.sty",
   "braket.sty", "physics.sty", "mhchem.sty", "graphicx.sty", "graphics.sty", "epsfig.sty",
   "epsf.sty", "psfig.sty", "float.sty", "caption.sty", "subcaption.sty", "subfigure.sty",
   "subfig.sty", "wrapfig.sty", "placeins.sty", "rotating.sty", "sidecap.sty", "afterpage.sty",
   "tabularx.sty", "tabulary.sty", "longtable.sty", "supertabular.sty", "booktabs.sty",
   "multirow.sty", "array.sty", "dcolumn.sty", "threeparttable.sty", "makecell.sty", "hhline.sty",
   "tikz.sty", "pgf.sty", "pgfplots.sty", "tikz-cd.sty", "xy.sty", "xypic.sty", "pstricks.sty",
   "pst-node.sty", "pict2e.sty", "epic.sty", "eepic.sty", "overpic.sty", "algorithm.sty",
   "algorithmic.sty", "algorithmicx.sty", "algpseudocode.sty", "algorithm2e.sty", "pdfpages.sty",
   "standalone.sty", "cite.sty", "natbib.sty", "biblatex.sty", "chicago.sty", "harvard.sty",
   "apacite.sty", "jurabib.sty", "bibentry.sty", "chapterbib.sty", "multibib.sty"]

/-- The catalogue of some names. -/
def ofList (names : List String) : Catalogue := ⟨Std.HashSet.ofList names⟩

/-- The catalogue that is used when no other is given. -/
def standard : Catalogue := ofList distributedFiles

/-- The name on a line; blank lines and lines that start with a hash sign hold none. -/
def nameOfLine? (line : List Char) : Option String :=
  match Text.trimBy Text.isBlank line with
  | [] => none
  | '#' :: _ => none
  | cs => some (Text.lowerAscii (String.ofList cs))

/-- Reads a list with one name per line. -/
def parse (text : String) : Catalogue :=
  ofList ((Text.lines text.toList).filterMap nameOfLine?)

/-- The number of names. -/
def size (catalogue : Catalogue) : Nat := catalogue.names.size

/-- A target without blanks, quotes and folders around its name, in small letters. -/
def baseName (target : String) : String :=
  let name := (Text.trimQuotes (Text.trim target)).toList
  let parts := Text.splitWhere (fun c => c == '/' || c == '\\') name
  Text.lowerAscii (String.ofList (parts.getLastD name))

/-- The endings that may be left off a target. -/
def endings : List String := [".sty", ".cls", ".tex", ".clo"]

/-- A name without the ending of a style, source or class. -/
def stem (name : String) : String :=
  ([".sty", ".tex", ".cls"].findSome? fun ending => Text.dropTail? ending name).getD name

/-- Whether a target is never read. A target without a name is none. -/
def knows (catalogue : Catalogue) (target : String) : Bool :=
  let name := baseName target
  name.isEmpty || ignoredStyles.contains (stem name) || catalogue.names.contains name ||
    endings.any fun ending => catalogue.names.contains (name ++ ending)

end Catalogue

end ProofProse
