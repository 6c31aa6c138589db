import GoNav.Path

namespace GoNav

/-- Where imported packages and the predeclared names are looked for. -/
structure Config where
  /-- The sources of the standard library. -/
  sdkSrc : Option Path := none
  /-- Directories whose `src` holds further packages. -/
  gopath : List Path := []
  /-- The file of predeclared names, as seen from the sources of the standard library. -/
  builtinPath : Path := ⟨"builtin/builtin.go"⟩
  deriving Repr, Inhabited

namespace Config

/-- The directories in which an import path is looked for, in this order. -/
def importRoots (c : Config) : List Path :=
  c.sdkSrc.toList ++ c.gopath.map (·.join ⟨"src"⟩)

/-- The path of the file of predeclared names. -/
def builtinFile? (c : Config) : Option Path :=
  c.sdkSrc.map (·.join c.builtinPath)

def builtinFileName? (c : Config) : Option String :=
  c.builtinPath.fileName?

end Config

end GoNav
