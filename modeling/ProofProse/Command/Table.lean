import Std.Data.HashMap
import ProofProse.Command.Accent
import ProofProse.Command.Effect
import ProofProse.Command.Structural
import ProofProse.Text.Search

/-! # The table of commands

The commands with an effect of their own, listed by subject. `Effect.ofName?` finds the effect of a
name: that of a listed command, else that of a name of mathematics, else that of an accent or
letter command. A name without an effect does nothing, unless it is structural or a test. -/

namespace ProofProse

namespace Command

open Operand

/-- Commands that point at a label. -/
def referenceCommands : List (String × Effect) :=
  [("ref", .placeholder .reference [star, mandatory]),
   ("eqref", .placeholder .reference [mandatory]),
   ("pageref", .placeholder .reference [star, mandatory]),
   ("autoref", .placeholder .reference [star, mandatory]),
   ("Autoref", .placeholder .reference [star, mandatory]),
   ("cref", .placeholder .reference [star, mandatory]),
   ("Cref", .placeholder .reference [star, mandatory]),
   ("cpageref", .placeholder .reference [star, mandatory]),
   ("labelcref", .placeholder .reference [mandatory]),
   ("crefrange", .placeholder .reference [mandatory, mandatory]),
   ("Crefrange", .placeholder .reference [mandatory, mandatory]),
   ("vref", .placeholder .reference [star, mandatory]),
   ("Vref", .placeholder .reference [star, mandatory]),
   ("subref", .placeholder .reference [star, mandatory]),
   ("thref", .placeholder .reference [mandatory])]

/-- Commands that cite. -/
def citationCommands : List (String × Effect) :=
  [("cite", .placeholder .citation [star, optional, optional, mandatory]),
   ("Cite", .placeholder .citation [star, optional, optional, mandatory]),
   ("citep", .placeholder .citation [star, optional, optional, mandatory]),
   ("Citep", .placeholder .citation [star, optional, optional, mandatory]),
   ("citet", .placeholder .citation [star, optional, optional, mandatory]),
   ("Citet", .placeholder .citation [star, optional, optional, mandatory]),
   ("citealp", .placeholder .citation [star, optional, optional, mandatory]),
   ("citealt", .placeholder .citation [star, optional, optional, mandatory]),
   ("citeyear", .placeholder .citation [star, optional, optional, mandatory]),
   ("citeyearpar", .placeholder .citation [star, optional, optional, mandatory]),
   ("citenum", .placeholder .citation [mandatory]),
   ("parencite", .placeholder .citation [star, optional, optional, mandatory]),
   ("Parencite", .placeholder .citation [star, optional, optional, mandatory]),
   ("textcite", .placeholder .citation [star, optional, optional, mandatory]),
   ("Textcite", .placeholder .citation [star, optional, optional, mandatory]),
   ("autocite", .placeholder .citation [star, optional, optional, mandatory]),
   ("Autocite", .placeholder .citation [star, optional, optional, mandatory]),
   ("footcite", .placeholder .citation [star, optional, optional, mandatory]),
   ("smartcite", .placeholder .citation [star, optional, optional, mandatory]),
   ("supercite", .placeholder .citation [star, optional, optional, mandatory])]

/-- Commands that stand for a name. -/
def nameCommands : List (String × Effect) :=
  [("citeauthor", .placeholder .name [star, optional, optional, mandatory]),
   ("Citeauthor", .placeholder .name [star, optional, optional, mandatory]),
   ("citename", .placeholder .name [star, optional, optional, mandatory]),
   ("nameref", .placeholder .name [star, mandatory]),
   ("Nameref", .placeholder .name [star, mandatory])]

/-- Commands that stand for mathematics or open a step of a proof. -/
def markerCommands : List (String × Effect) :=
  [("ensuremath", .placeholder .math [mandatory]),
   ("part", .placeholder .step [star, optional, mandatory]),
   ("chapter", .placeholder .step [star, optional, mandatory]),
   ("section", .placeholder .step [star, optional, mandatory]),
   ("subsection", .placeholder .step [star, optional, mandatory]),
   ("subsubsection", .placeholder .step [star, optional, mandatory]),
   ("paragraph", .placeholder .step [star, optional, mandatory]),
   ("subparagraph", .placeholder .step [star, optional, mandatory]),
   ("item", .placeholder .step [optional])]

/-- Labels, notes and front matter. -/
def noteCommands : List (String × Effect) :=
  [("label", .silent [mandatory]),
   ("tag", .silent [star, mandatory]),
   ("nonumber", .silent []),
   ("notag", .silent []),
   ("footnote", .silent [optional, mandatory]),
   ("footnotemark", .silent [optional]),
   ("footnotetext", .silent [optional, mandatory]),
   ("marginpar", .silent [optional, mandatory]),
   ("thanks", .silent [mandatory]),
   ("title", .silent [optional, mandatory]),
   ("author", .silent [optional, mandatory]),
   ("date", .silent [mandatory]),
   ("address", .silent [mandatory]),
   ("email", .silent [mandatory]),
   ("affiliation", .silent [optional, mandatory]),
   ("keywords", .silent [mandatory]),
   ("subjclass", .silent [optional, mandatory]),
   ("maketitle", .silent []),
   ("index", .silent [mandatory]),
   ("glossary", .silent [mandatory]),
   ("url", .silent [mandatory]),
   ("href", .silent [mandatory]),
   ("hyperref", .silent [optional]),
   ("hypersetup", .silent [mandatory]),
   ("urlstyle", .silent [mandatory]),
   ("caption", .silent [star, optional, mandatory]),
   ("includegraphics", .silent [star, optional, mandatory]),
   ("bibliography", .silent [mandatory]),
   ("bibliographystyle", .silent [mandatory]),
   ("addbibresource", .silent [optional, mandatory]),
   ("nocite", .silent [mandatory]),
   ("newtheorem", .silent [star, optional, mandatory, optional]),
   ("theoremstyle", .silent [mandatory]),
   ("crefname", .silent [mandatory, mandatory, mandatory]),
   ("Crefname", .silent [mandatory, mandatory, mandatory]),
   ("tableofcontents", .silent []),
   ("appendix", .silent []),
   ("frontmatter", .silent []),
   ("mainmatter", .silent []),
   ("backmatter", .silent []),
   ("qed", .silent []),
   ("qedhere", .silent []),
   ("qedsymbol", .silent [])]

/-- Counters and lengths. -/
def counterCommands : List (String × Effect) :=
  [("setlength", .silent [mandatory, mandatory]),
   ("addtolength", .silent [mandatory, mandatory]),
   ("settowidth", .silent [mandatory, mandatory]),
   ("settoheight", .silent [mandatory, mandatory]),
   ("newlength", .silent [mandatory]),
   ("setcounter", .silent [mandatory, mandatory]),
   ("addtocounter", .silent [mandatory, mandatory]),
   ("stepcounter", .silent [mandatory]),
   ("refstepcounter", .silent [mandatory]),
   ("newcounter", .silent [mandatory, optional]),
   ("numberwithin", .silent [optional, mandatory, mandatory]),
   ("counterwithin", .silent [star, mandatory, mandatory]),
   ("parindent", .silent [equals, dimension]),
   ("parskip", .silent [equals, dimension]),
   ("baselineskip", .silent [equals, dimension]),
   ("textwidth", .silent [equals, dimension]),
   ("linewidth", .silent [equals, dimension]),
   ("columnsep", .silent [equals, dimension]),
   ("tolerance", .silent [equals, number]),
   ("hbadness", .silent [equals, number]),
   ("clubpenalty", .silent [equals, number]),
   ("widowpenalty", .silent [equals, number])]

/-- Boxes, glue and page breaks. -/
def spacingCommands : List (String × Effect) :=
  [("hspace", .silent [star, mandatory]),
   ("vspace", .silent [star, mandatory]),
   ("addvspace", .silent [mandatory]),
   ("hskip", .silent [dimension]),
   ("vskip", .silent [dimension]),
   ("kern", .silent [dimension]),
   ("mkern", .silent [dimension]),
   ("penalty", .silent [number]),
   ("vfill", .silent []),
   ("vfil", .silent []),
   ("hss", .silent []),
   ("!", .silent []),
   ("/", .silent []),
   ("-", .silent []),
   ("@", .silent []),
   ("phantom", .silent [mandatory]),
   ("hphantom", .silent [mandatory]),
   ("vphantom", .silent [mandatory]),
   ("rule", .silent [optional, mandatory, mandatory]),
   ("raisebox", .silent [mandatory, optional, optional]),
   ("newpage", .silent []),
   ("clearpage", .silent []),
   ("cleardoublepage", .silent []),
   ("pagebreak", .silent [optional]),
   ("nopagebreak", .silent [optional]),
   ("nolinebreak", .silent [optional]),
   ("noindent", .silent []),
   ("indent", .silent []),
   ("centering", .silent []),
   ("raggedright", .silent []),
   ("raggedleft", .silent []),
   ("allowdisplaybreaks", .silent [optional]),
   ("pagestyle", .silent [mandatory]),
   ("thispagestyle", .silent [mandatory]),
   ("pagenumbering", .silent [mandatory]),
   ("hline", .silent []),
   ("cline", .silent [mandatory]),
   ("multicolumn", .silent [mandatory, mandatory])]

/-- Colours and fonts. -/
def fontCommands : List (String × Effect) :=
  [("color", .silent [optional, mandatory]),
   ("textcolor", .silent [optional, mandatory]),
   ("colorbox", .silent [optional, mandatory]),
   ("pagecolor", .silent [optional, mandatory]),
   ("definecolor", .silent [mandatory, mandatory, mandatory]),
   ("selectfont", .silent []),
   ("fontsize", .silent [mandatory, mandatory]),
   ("fontfamily", .silent [mandatory]),
   ("usefont", .silent [mandatory, mandatory, mandatory, mandatory])]

/-- Commands of packages and classes about themselves. -/
def packageCommands : List (String × Effect) :=
  [("ProvidesPackage", .silent [mandatory, optional]),
   ("ProvidesFile", .silent [mandatory, optional]),
   ("ProvidesClass", .silent [mandatory, optional]),
   ("NeedsTeXFormat", .silent [mandatory, optional]),
   ("DeclareOption", .silent [star, mandatory, mandatory]),
   ("ProcessOptions", .silent [star]),
   ("ExecuteOptions", .silent [mandatory]),
   ("PassOptionsToPackage", .silent [mandatory, mandatory]),
   ("PassOptionsToClass", .silent [mandatory, mandatory]),
   ("AtBeginDocument", .silent [mandatory]),
   ("AtEndDocument", .silent [mandatory]),
   ("usetikzlibrary", .silent [mandatory]),
   ("graphicspath", .silent [mandatory]),
   ("DeclareGraphicsExtensions", .silent [mandatory]),
   ("hyphenation", .silent [mandatory]),
   ("includeonly", .silent [mandatory])]

/-- Commands that stand for a text. -/
def literalCommands : List (String × Effect) :=
  [("ldots", .literal "..."),
   ("dots", .literal "..."),
   ("textellipsis", .literal "..."),
   ("&", .literal "&"),
   ("%", .literal "%"),
   ("$", .literal "$"),
   ("#", .literal "#"),
   ("_", .literal "_"),
   ("\x7b", .literal "\x7b"),
   ("\x7d", .literal "\x7d"),
   ("S", .literal "\u00a7"),
   ("P", .literal "\u00b6"),
   ("textbackslash", .literal "\\"),
   ("textasciitilde", .literal "~"),
   ("textasciicircum", .literal "^"),
   ("textbar", .literal "|"),
   ("textless", .literal "<"),
   ("textgreater", .literal ">"),
   ("textendash", .literal "\u2013"),
   ("textemdash", .literal "\u2014"),
   ("textquoteleft", .literal "\u2018"),
   ("textquoteright", .literal "\u2019"),
   ("textquotedblleft", .literal "\""),
   ("textquotedblright", .literal "\""),
   ("copyright", .literal "\u00a9"),
   ("textregistered", .literal "\u00ae"),
   ("texttrademark", .literal "\u2122"),
   ("dag", .literal "\u2020"),
   ("ddag", .literal "\u2021"),
   ("pounds", .literal "\u00a3"),
   ("euro", .literal "\u20ac"),
   ("textdegree", .literal "\u00b0"),
   ("slash", .literal "/"),
   ("TeX", .literal "TeX"),
   ("LaTeX", .literal "LaTeX"),
   ("LaTeXe", .literal "LaTeX2e"),
   ("BibTeX", .literal "BibTeX")]

/-- Commands that part words. -/
def gapCommands : List (String × Effect) :=
  [(" ", .gap []),
   (",", .gap []),
   (";", .gap []),
   (":", .gap []),
   ("\\", .gap [star, optional]),
   ("quad", .gap []),
   ("qquad", .gap []),
   ("enspace", .gap []),
   ("enskip", .gap []),
   ("thinspace", .gap []),
   ("newline", .gap []),
   ("linebreak", .gap [optional]),
   ("par", .gap []),
   ("smallskip", .gap []),
   ("medskip", .gap []),
   ("bigskip", .gap []),
   ("hfill", .gap []),
   ("hfil", .gap [])]

/-- Commands that define. -/
def definitionCommands : List (String × Effect) :=
  [("newcommand", .definition .newCommand),
   ("renewcommand", .definition .newCommand),
   ("DeclareRobustCommand", .definition .newCommand),
   ("providecommand", .definition .provideCommand),
   ("def", .definition .parameterText),
   ("gdef", .definition .parameterText),
   ("edef", .definition .parameterText),
   ("xdef", .definition .parameterText),
   ("let", .definition .copy),
   ("newenvironment", .definition .newEnvironment),
   ("renewenvironment", .definition .newEnvironment),
   ("provideenvironment", .definition .provideEnvironment),
   ("newif", .definition .newTest),
   ("newboolean", .definition .newFlag),
   ("provideboolean", .definition .newFlag),
   ("newtoggle", .definition .newFlag),
   ("providetoggle", .definition .newFlag),
   ("DeclareMathOperator", .definition .mathOperator),
   ("DeclarePairedDelimiter", .definition .pairedDelimiter)]

/-- Commands that choose between two arguments, and those that set flags. -/
def choiceCommands : List (String × Effect) :=
  [("ifthenelse", .choice .ifThenElse),
   ("ifstrequal", .choice .ifEqual),
   ("IfStrEq", .choice .ifEqual),
   ("IfEq", .choice .ifEqual),
   ("ifstrempty", .choice .ifEmpty),
   ("ifblank", .choice .ifEmpty),
   ("ifbool", .choice .ifFlag),
   ("iftoggle", .choice .ifFlag),
   ("ifdef", .choice (.ifDefined false true)),
   ("ifundef", .choice (.ifDefined false false)),
   ("ifcsdef", .choice (.ifDefined true true)),
   ("ifcsundef", .choice (.ifDefined true false)),
   ("ifdefempty", .choice (.untested [mandatory])),
   ("ifdefvoid", .choice (.untested [mandatory])),
   ("ifdefmacro", .choice (.untested [mandatory])),
   ("ifdefstring", .choice (.untested [mandatory, mandatory])),
   ("ifcsempty", .choice (.untested [mandatory])),
   ("ifcsstring", .choice (.untested [mandatory, mandatory])),
   ("ifboolexpr", .choice (.untested [mandatory])),
   ("ifinlist", .choice (.untested [mandatory, mandatory])),
   ("ifnumcomp", .choice (.untested [mandatory, mandatory, mandatory])),
   ("ifnumequal", .choice (.untested [mandatory, mandatory])),
   ("ifnumgreater", .choice (.untested [mandatory, mandatory])),
   ("ifnumless", .choice (.untested [mandatory, mandatory])),
   ("ifnumodd", .choice (.untested [mandatory])),
   ("ifdimcomp", .choice (.untested [mandatory, mandatory, mandatory])),
   ("ifdimequal", .choice (.untested [mandatory, mandatory])),
   ("setboolean", .choice .setFlagTo),
   ("setbool", .choice .setFlagTo),
   ("settoggle", .choice .setFlagTo),
   ("booltrue", .choice (.setFlag true)),
   ("toggletrue", .choice (.setFlag true)),
   ("boolfalse", .choice (.setFlag false)),
   ("togglefalse", .choice (.setFlag false))]

/-- Commands that name files. -/
def inclusionCommands : List (String × Effect) :=
  [("input", .inclusion .input),
   ("include", .inclusion .input),
   ("subfile", .inclusion .input),
   ("usepackage", .inclusion .package),
   ("RequirePackage", .inclusion .package),
   ("documentclass", .inclusion .documentClass),
   ("documentstyle", .inclusion .documentClass),
   ("LoadClass", .inclusion .documentClass)]

/-- Commands for text inside mathematics. -/
def mathTextCommands : List (String × Effect) :=
  [("text", .mathText),
   ("mbox", .mathText),
   ("hbox", .mathText),
   ("fbox", .mathText),
   ("textrm", .mathText),
   ("textit", .mathText),
   ("textbf", .mathText),
   ("textsf", .mathText),
   ("texttt", .mathText),
   ("textup", .mathText),
   ("textsl", .mathText),
   ("textsc", .mathText),
   ("textnormal", .mathText),
   ("emph", .mathText),
   ("intertext", .mathText),
   ("shortintertext", .mathText)]

/-- All listed commands. -/
def listed : List (String × Effect) :=
  referenceCommands ++
    citationCommands ++
    nameCommands ++
    markerCommands ++
    noteCommands ++
    counterCommands ++
    spacingCommands ++
    fontCommands ++
    packageCommands ++
    literalCommands ++
    gapCommands ++
    definitionCommands ++
    choiceCommands ++
    inclusionCommands ++
    mathTextCommands

/-- Names that make sense in mathematics only. -/
def mathNames : List String :=
  ["frac", "dfrac", "tfrac", "cfrac", "sqrt", "binom", "dbinom", "tbinom", "sum", "prod",
   "coprod", "int", "iint", "iiint", "oint", "lim", "limsup", "liminf", "sup", "inf", "log", "ln",
   "exp", "sin", "cos", "tan", "det", "left", "right", "big", "Big", "bigg", "Bigg", "bigl",
   "bigr", "Bigl", "Bigr", "overline", "overbrace", "underbrace", "hat", "widehat", "bar",
   "tilde", "widetilde", "vec", "dot", "ddot", "overrightarrow", "displaystyle", "pmod", "bmod",
   "operatorname", "mathop", "limits", "nolimits", "mathbb", "mathcal", "mathfrak", "mathscr",
   "mathrm", "mathbf", "mathit", "mathsf", "mathtt", "boldsymbol", "leq", "geq", "le", "ge",
   "neq", "ne", "ll", "gg", "in", "notin", "ni", "subset", "subseteq", "subsetneq", "supset",
   "supseteq", "cup", "cap", "bigcup", "bigcap", "setminus", "times", "cdot", "cdots", "vdots",
   "ddots", "infty", "partial", "nabla", "forall", "exists", "nexists", "to", "mapsto",
   "rightarrow", "Rightarrow", "leftarrow", "Leftarrow", "leftrightarrow", "Leftrightarrow",
   "longrightarrow", "Longrightarrow", "iff", "implies", "equiv", "approx", "sim", "simeq",
   "cong", "propto", "perp", "parallel", "pm", "mp", "circ", "oplus", "otimes", "bigoplus",
   "bigotimes", "wedge", "vee", "neg", "lnot", "emptyset", "varnothing", "langle", "rangle",
   "lfloor", "rfloor", "lceil", "rceil", "mid", "nmid", "ell", "prec", "succ", "preceq", "succeq",
   "vdash", "models", "alpha", "beta", "gamma", "delta", "epsilon", "varepsilon", "zeta", "eta",
   "theta", "vartheta", "iota", "kappa", "lambda", "mu", "nu", "xi", "pi", "varpi", "rho",
   "varrho", "sigma", "varsigma", "tau", "upsilon", "phi", "varphi", "chi", "psi", "omega",
   "Gamma", "Delta", "Theta", "Lambda", "Xi", "Pi", "Sigma", "Upsilon", "Phi", "Psi", "Omega"]

/-- Every name that has an effect. Where a name stands twice the later entry counts. -/
def entries : List (String × Effect) :=
  Accent.letters.map (fun (name, letter) => (name, .literal letter)) ++
    Accent.marks.map (fun (name, mark) => (name, .accent mark)) ++
    mathNames.map (fun name => (name, .mathOnly)) ++ listed

/-- The entries, indexed by name. -/
def index : Std.HashMap String Effect := Std.HashMap.ofList entries

end Command

/-- The effect of a command. -/
def Effect.ofName? (name : String) : Option Effect := Command.index[name]?

/-- The number of parameters that a new definition of the name may not have. References, citations
and names stay what they are as long as they are called in the same way. -/
def protectedArity? (name : String) : Option Nat :=
  match Effect.ofName? name with
  | some (.placeholder .reference signature) => some signature.mandatoryCount
  | some (.placeholder .citation signature) => some signature.mandatoryCount
  | some (.placeholder .name signature) => some signature.mandatoryCount
  | _ => none

/-- A test that needs a closing `fi` and is decided without a look at its operands: any name that
starts like a test and has no effect. -/
def isBareTest (name : String) : Bool :=
  "if".toList.isPrefixOf name.toList && (Effect.ofName? name).isNone

/-- A name that means something without any definition in the source. -/
def isBuiltin (name : String) : Bool :=
  (Effect.ofName? name).isSome || isBareTest name || (Structural.ofName? name).isSome

end ProofProse
