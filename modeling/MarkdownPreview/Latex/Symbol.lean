/-! The LaTeX commands that have a Unicode rendering of their own. Commands are named without the
backslash. -/

namespace MarkdownPreview.Latex

/-- Commands and what to draw for them. For an accent that is the combining mark which goes after
the accented text. -/
def symbols : List (String × String) := [
  -- Greek lowercase
  ("alpha", "α"), ("beta", "β"), ("gamma", "γ"), ("delta", "δ"), ("epsilon", "ε"),
  ("varepsilon", "ε"), ("zeta", "ζ"), ("eta", "η"), ("theta", "θ"), ("vartheta", "ϑ"),
  ("iota", "ι"), ("kappa", "κ"), ("lambda", "λ"), ("mu", "μ"), ("nu", "ν"), ("xi", "ξ"),
  ("pi", "π"), ("varpi", "ϖ"), ("rho", "ρ"), ("varrho", "ϱ"), ("sigma", "σ"),
  ("varsigma", "ς"), ("tau", "τ"), ("upsilon", "υ"), ("phi", "φ"), ("varphi", "ϕ"),
  ("chi", "χ"), ("psi", "ψ"), ("omega", "ω"),
  -- Greek uppercase
  ("Gamma", "Γ"), ("Delta", "Δ"), ("Theta", "Θ"), ("Lambda", "Λ"), ("Xi", "Ξ"), ("Pi", "Π"),
  ("Sigma", "Σ"), ("Upsilon", "Υ"), ("Phi", "Φ"), ("Psi", "Ψ"), ("Omega", "Ω"),
  -- Operators and relations
  ("cdot", "·"), ("times", "×"), ("div", "÷"), ("pm", "±"), ("mp", "∓"), ("leq", "≤"),
  ("le", "≤"), ("geq", "≥"), ("ge", "≥"), ("neq", "≠"), ("ne", "≠"), ("approx", "≈"),
  ("equiv", "≡"), ("sim", "∼"), ("simeq", "≃"), ("propto", "∝"), ("ll", "≪"), ("gg", "≫"),
  ("mid", "|"), ("lesssim", "≲"), ("gtrsim", "≳"), ("lessapprox", "⪅"), ("gtrapprox", "⪆"),
  ("prec", "≺"), ("succ", "≻"), ("preceq", "⪯"), ("succeq", "⪰"),
  -- Arrows
  ("leftarrow", "←"), ("rightarrow", "→"), ("to", "→"), ("leftrightarrow", "↔"),
  ("Leftarrow", "⇐"), ("Rightarrow", "⇒"), ("Leftrightarrow", "⇔"), ("uparrow", "↑"),
  ("downarrow", "↓"), ("mapsto", "↦"),
  -- Sets and logic
  ("forall", "∀"), ("exists", "∃"), ("nexists", "∄"), ("in", "∈"), ("notin", "∉"), ("ni", "∋"),
  ("subset", "⊂"), ("supset", "⊃"), ("subseteq", "⊆"), ("supseteq", "⊇"), ("cup", "∪"),
  ("cap", "∩"), ("emptyset", "∅"), ("varnothing", "∅"), ("neg", "¬"), ("land", "∧"),
  ("lor", "∨"), ("top", "⊤"), ("bot", "⊥"), ("perp", "⊥"),
  -- Calculus and analysis
  ("infty", "∞"), ("partial", "∂"), ("nabla", "∇"), ("int", "∫"), ("iint", "∬"),
  ("iiint", "∭"), ("oint", "∮"), ("sum", "∑"), ("prod", "∏"), ("coprod", "∐"),
  -- Miscellaneous
  ("sqrt", "√"), ("circ", "∘"), ("bullet", "•"), ("star", "★"), ("dagger", "†"),
  ("ddagger", "‡"), ("ell", "ℓ"), ("hbar", "ℏ"), ("prime", "′"), ("angle", "∠"),
  ("parallel", "∥"), ("square", "□"), ("ldots", "…"), ("cdots", "⋯"), ("vdots", "⋮"),
  ("ddots", "⋱"),
  -- Spacing
  ("quad", " "), (",", " "), (";", " "), (":", " "), ("qquad", "  "), ("!", ""),
  -- Accents: combining marks appended to the accented argument
  ("hat", "\u0302"), ("tilde", "\u0303"), ("bar", "\u0304"), ("dot", "\u0307"),
  ("ddot", "\u0308"), ("vec", "\u20d7"),
  -- Function names stay textual
  ("max", "max"), ("min", "min"), ("log", "log"), ("exp", "exp"), ("sin", "sin"),
  ("cos", "cos"), ("tan", "tan"), ("lim", "lim"), ("sup", "sup"), ("inf", "inf"),
  ("arg", "arg")]

/-- The Unicode rendering of a command, if it has one. -/
def symbol? (name : List Char) : Option (List Char) :=
  (symbols.find? (·.1.toList == name)).map (·.2.toList)

/-- The commands that put a mark on a braced argument. -/
def accents : List String := ["tilde", "hat", "bar", "dot", "ddot", "vec"]

def isAccent (name : List Char) : Bool := accents.any (·.toList == name)

end MarkdownPreview.Latex
