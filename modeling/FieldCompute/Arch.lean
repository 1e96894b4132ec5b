import FieldCompute.Text.Characters
/-!
# Target architectures

A program is built for one architecture for its whole life.
-/

namespace FieldCompute

inductive Arch where
  | x64 | arm64 | cuda | amdgpu | vulkan | metal | opengl | dx11
deriving DecidableEq, Repr, Inhabited

namespace Arch

/-- Every architecture, by rising position. -/
def all : List Arch := [x64, arm64, cuda, amdgpu, vulkan, metal, opengl, dx11]

def name : Arch → String
  | x64 => "x64"
  | arm64 => "arm64"
  | cuda => "cuda"
  | amdgpu => "amdgpu"
  | vulkan => "vulkan"
  | metal => "metal"
  | opengl => "opengl"
  | dx11 => "dx11"

/-- The name that stands for the architecture in module files and in a program's description. -/
def tag : Arch → String
  | x64 => "X64"
  | arm64 => "Arm64"
  | cuda => "Cuda"
  | amdgpu => "Amdgpu"
  | vulkan => "Vulkan"
  | metal => "Metal"
  | opengl => "OpenGl"
  | dx11 => "Dx11"

/-- The architecture of the machine that interprets kernels. -/
def host : Arch := x64

def isCpu : Arch → Bool
  | x64 | arm64 => true
  | _ => false

/-- Kernels for this architecture go through the LLVM family of backends. -/
def usesLlvm : Arch → Bool
  | x64 | arm64 | cuda | amdgpu => true
  | _ => false

/-- The architecture has a graphics device beside its compute device. -/
def hasGraphics : Arch → Bool
  | vulkan | metal | opengl | dx11 => true
  | _ => false

/-- The architecture of that name. Blanks around the name and the case of ASCII letters do not
matter. -/
def parse? (text : String) : Option Arch :=
  let wanted := (Text.trimBlanks text).toList.map Char.toLower
  all.find? fun a => a.name.toList = wanted

/-- Where the architecture stands among all. -/
def position (a : Arch) : Nat := all.idxOf a

end Arch

end FieldCompute
