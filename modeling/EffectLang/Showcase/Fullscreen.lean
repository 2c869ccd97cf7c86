import EffectLang.Batch

/-!
A worked example: an effect that draws one triangle over the whole screen, compiled as a batch of one, and
looked up by the names of its passes and stages.
-/
namespace EffectLang.Showcase

def source : String := "// Fullscreen triangle with a tonemapped texture lookup.
effect Fullscreen \x7b

    glsl Triangle \x7b
        #if defined(VERTEX)
        out vec2 uv;
        void main() \x7b
            uv = vec2((gl_VertexID << 1) & 2, gl_VertexID & 2);
            gl_Position = vec4(uv * 2.0 - 1.0, 0.0, 1.0);
        \x7d
        #endif

        #if defined(FRAGMENT)
        #pragma include_hfx Fullscreen
        uniform sampler2D albedo;
        in vec2 uv;
        out vec4 color;
        void main() \x7b
            vec3 c = texture(albedo, uv).rgb * exposure;
            color = vec4(c / (c + vec3(1.0)), 1.0);
        \x7d
        #endif
    \x7d

    pass Main \x7b
        vertex = Triangle
        fragment = Triangle
    \x7d

    properties \x7b
        exposure(\"Exposure\", Float = 1.0)
        gamma(\"Gamma\", Range(1, 3) = 2.2)
        albedo(\"Albedo\", 2D = \"white\")
    \x7d
\x7d
"

def compiledTree : FileTree :=
  let tree : FileTree :=
    { entries := [(["effects"], .directory), (["effects", "fullscreen.hfx"], .file (Utf8.encode source))] }
  (Batch.compileInto "effects" "out" [⟨"fullscreen.hfx", "fullscreen"⟩] tree).2

def generated (name : String) : String :=
  match compiledTree.readFile (Path.join "out/fullscreen" name) with
  | .ok bytes => (Utf8.decode? bytes).getD ""
  | .error _ => ""

def stages : List (String × String) :=
  ["Triangle_vt", "Triangle_fg"].map fun stem => (stem, generated (stem ++ ".glsl"))

structure Fullscreen where
  effect : Effect
  constants : String
deriving DecidableEq, Repr, Inhabited

namespace Fullscreen

def load : Except Report Fullscreen :=
  match compiledTree.readFile "out/fullscreen.hfxb" with
  | .error fault => .error (.ofFault "Failed to read effect binary" fault)
  | .ok bytes =>
    match Effect.ofBytesReported bytes with
    | .error report => .error report
    | .ok effect => .ok ⟨effect, generated "Fullscreen_constants.glsl"⟩

def stageSource (stem : String) : Except Report String :=
  match stages.lookup stem with
  | some source => .ok source
  | none => .error (.ofText ("No generated stage named " ++ stem))

def passSources (loaded : Fullscreen) (name : String) : Except Report (List String) :=
  match loaded.effect.passes.find? fun pass => pass.name == name with
  | none => .error (.ofText ("Effect has no pass " ++ name))
  | some pass => pass.shaders.mapM fun shader =>
    match loaded.effect.chunk? shader with
    | none => .error (.ofText ("Pass " ++ name ++ " has an unresolved stage"))
    | some chunk => stageSource (StageFile.stem chunk shader.stage)

end Fullscreen

end EffectLang.Showcase
