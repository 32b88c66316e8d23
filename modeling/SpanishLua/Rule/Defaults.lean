import SpanishLua.Rule.Table

namespace SpanishLua.Rule.Defaults

/-- Words of the language itself. -/
def keywords : List (String × String) :=
  [("funcion", "function"), ("fin", "end"), ("si", "if"), ("entonces", "then"), ("sino", "else"),
   ("mientras", "while"), ("hacer", "do"), ("para", "for"), ("en", "in"), ("retornar", "return"),
   ("local", "local"), ("y", "and"), ("o", "or"), ("no", "not"), ("verdadero", "true"),
   ("falso", "false"), ("imprimir", "print"), ("esperar", "wait"), ("tick", "tick"),
   ("time", "time"), ("tipo", "type"), ("pares", "pairs"), ("ipares", "ipairs"), ("nulo", "nil"),
   ("romper", "break"), ("continuar", "continue"), ("repetir", "repeat"), ("hasta", "until")]

/-- Functions called by name. -/
def globalFunctions : List (String × String) :=
  [("tarea_espera", "task.wait"), ("tarea_spawn", "task.spawn"), ("tarea_delay", "task.delay"),
   ("tarea_defer", "task.defer"), ("tarea_synchronize", "task.synchronize"),
   ("tarea_desynchronize", "task.desynchronize"), ("task_spawn", "task.spawn"),
   ("task_delay", "task.delay"), ("task_wait", "task.wait"), ("task_defer", "task.defer"),
   ("task_synchronize", "task.synchronize"), ("task_desynchronize", "task.desynchronize"),
   ("cargar_datos", "function(store, key) return store:GetAsync(key) end"),
   ("guardar_datos", "function(store, key, value) return store:SetAsync(key, value) end"),
   ("incrementar_datos", "function(store, key, delta) return store:IncrementAsync(key, delta) end"),
   ("info_tween", "TweenInfo.new"), ("esperar_hijo", "WaitForChild"),
   ("encontrar_hijo", "FindFirstChild"), ("obtener_hijos", "GetChildren"),
   ("obtener_descendientes", "GetDescendants"), ("es_ancestro", "IsAncestorOf"),
   ("es_descendiente", "IsDescendantOf"), ("clonar", "Clone"), ("destruir", "Destroy"),
   ("conectar", "Connect"), ("desconectar", "Disconnect"), ("desconectar_todo", "DisconnectAll"),
   ("jugar", "Play"), ("pausar", "Pause"), ("detener", "Stop"), ("reanudar", "Resume"),
   ("emitir", "Emit"), ("insertar", "table.insert"), ("remover", "table.remove"),
   ("ordenar", "table.sort"), ("concatenar", "table.concat"), ("vaciar", "table.clear"),
   ("encontrar", "table.find"), ("congelar", "table.freeze"), ("esta_congelado", "table.isfrozen"),
   ("empaquetar", "table.pack"), ("desempaquetar", "table.unpack"), ("longitud", "#")]

/-- Methods, called after a colon. -/
def methods : List (String × String) :=
  [("clonar", "Clone"), ("destruir", "Destroy"), ("conectar", "Connect"),
   ("desconectar", "Disconnect"), ("desconectar_todo", "DisconnectAll"), ("esperar", "Wait"),
   ("jugar", "Play"), ("pausar", "Pause"), ("detener", "Stop"), ("reanudar", "Resume"),
   ("emitir", "Emit"), ("encontrar_hijo", "FindFirstChild"), ("esperar_hijo", "WaitForChild"),
   ("obtener_hijos", "GetChildren"), ("obtener_descendientes", "GetDescendants"),
   ("es_ancestro", "IsAncestorOf"), ("es_descendiente", "IsDescendantOf"),
   ("obtener_jugadores", "GetPlayers"), ("cargar_personaje", "LoadCharacter"),
   ("quitar_personaje", "RemoveCharacter"), ("crear_tween", "Create"), ("mover", "Move"),
   ("cambiar_estado", "ChangeState"), ("estado_actual", "GetState"),
   ("capturar_foco", "CaptureFocus"), ("liberar_foco", "ReleaseFocus"),
   ("aplicar_impulso", "ApplyImpulse"), ("aplicar_fuerza", "ApplyForce"),
   ("aplicar_torque", "ApplyTorque"), ("aplicar_velocidad_angular", "ApplyAngularImpulse")]

/-- Types and the most arguments that their constructors take. -/
def constructors : List (String × String × Option Nat) :=
  [("Color3", "Color3", some 3), ("Vector3", "Vector3", none), ("UDim2", "UDim2", none),
   ("CFrame", "CFrame", none), ("secuencia_color", "ColorSequence", none),
   ("secuencia_numero", "NumberSequence", none),
   ("punto_secuencia_numero", "NumberSequenceKeypoint", none),
   ("punto_secuencia_color", "ColorSequenceKeypoint", none), ("rango_numero", "NumberRange", none),
   ("ladrillo_color", "BrickColor", none)]

/-- Properties, named after a dot. -/
def properties : List (String × String) :=
  [("nombre", "Name"), ("padre", "Parent"), ("tamano", "Size"), ("posicion", "Position"),
   ("color_fondo", "BackgroundColor3"), ("texto", "Text"), ("color_texto", "TextColor3"),
   ("transparencia_fondo", "BackgroundTransparency"), ("escalado_texto", "TextScaled"),
   ("visible", "Visible"), ("anclado", "Anchored"), ("transparencia", "Transparency"),
   ("color", "Color3"), ("material", "Material"), ("reflejo", "Reflectance"),
   ("humanoide", "Humanoid"), ("parte_primaria", "PrimaryPart"), ("salud", "Health"),
   ("salud_maxima", "MaxHealth"), ("velocidad_caminar", "WalkSpeed"), ("poder_salto", "JumpPower"),
   ("forma", "Shape"), ("superficie", "TopSurface"), ("superficie_inferior", "BottomSurface"),
   ("frente", "FrontSurface"), ("atras", "BackSurface"), ("izquierda", "LeftSurface"),
   ("derecha", "RightSurface"), ("puede_colisionar", "CanCollide"), ("masa", "Mass"),
   ("densidad", "Density"), ("friccion", "Friction"), ("elasticidad", "Elasticity"),
   ("borde_pixel", "BorderSizePixel"), ("radio_esquina", "CornerRadius"),
   ("recorte", "ClipsDescendants"), ("seleccionable", "Selectable"), ("orden_z", "ZIndex"),
   ("layout", "LayoutOrder"), ("alineamiento", "Alignment"),
   ("alineamiento_vertical", "VerticalAlignment"),
   ("alineamiento_horizontal", "HorizontalAlignment"), ("relleno", "Padding"),
   ("espaciado", "Spacing"), ("fuente", "Font"), ("tamano_fuente", "FontSize"),
   ("linea_texto", "TextWrap"), ("ajuste_texto", "TextWrapped"), ("texto_truncado", "TextTruncate"),
   ("alineacion_texto", "TextXAlignment"), ("alineacion_texto_vertical", "TextYAlignment"),
   ("color_borde", "BorderColor3"), ("transparencia_borde", "BorderTransparency"),
   ("rango", "Range"), ("brillo", "Brightness"), ("angulo", "Angle"), ("atenuacion", "Falloff"),
   ("habilitado", "Enabled"), ("volumen", "Volume"), ("tiempo_posicion", "TimePosition"),
   ("duracion", "TimeLength"), ("pitch", "Pitch"), ("loop", "Looped"), ("jugando", "Playing"),
   ("distancia_maxima", "MaxDistance"), ("distancia_minima", "MinDistance"),
   ("id_sonido", "SoundId"), ("id_imagen", "Image"), ("id_malla", "MeshId"),
   ("id_textura", "TextureID"), ("velocidad", "Velocity"), ("velocidad_angular", "AngularVelocity"),
   ("velocidad_maxima", "MaxVelocity"), ("velocidad_rotacion", "RotVelocity"), ("fuerza", "Force"),
   ("torque", "Torque"), ("centro_masas", "CenterOfMass"), ("tipo_luz", "LightType"),
   ("sombra", "Shadows"), ("atenuacion_rolloff", "RollOffMode"), ("escala_textura", "TextureSize"),
   ("desplazamiento_vertice", "VertexColor"), ("offset_malla", "Offset"), ("escala_malla", "Scale"),
   ("jugador_local", "LocalPlayer"), ("personaje", "Character"), ("completado", "Completed"),
   ("estado_tween", "PlaybackState"), ("cambiado", "Changed"), ("tocado", "Touched"),
   ("tocar_terminado", "TouchEnded"), ("clic_izquierdo", "MouseButton1Down"),
   ("clic_izquierdo_soltado", "MouseButton1Up"), ("clic_derecho", "MouseButton2Down"),
   ("clic_derecho_soltado", "MouseButton2Up"), ("mouse_entro", "MouseEnter"),
   ("mouse_salio", "MouseLeave"), ("entrada_comenzo", "InputBegan"),
   ("input_termino", "InputEnded"), ("input_cambiado", "InputChanged"),
   ("perder_foco", "FocusLost")]

/-- Functions of the `math` library. -/
def mathFunctions : List (String × String) :=
  [("piso", "floor"), ("techo", "ceil"), ("absoluto", "abs"), ("maximo", "max"), ("minimo", "min"),
   ("redondear", "round"), ("potencia", "pow"), ("raiz", "sqrt"), ("grados_a_radianes", "deg"),
   ("radianes_a_grados", "rad"), ("aleatorio", "random"), ("semilla_aleatoria", "randomseed"),
   ("ruido_perlin", "noise"), ("pi", "pi"), ("infinito", "huge"), ("exp", "exp"), ("log", "log"),
   ("log10", "log10"), ("sin", "sin"), ("cos", "cos"), ("tan", "tan"), ("asin", "asin"),
   ("acos", "acos"), ("atan", "atan"), ("atan2", "atan2"), ("sinh", "sinh"), ("cosh", "cosh"),
   ("tanh", "tanh")]

/-- Services, named in a literal. -/
def services : List (String × String) :=
  [("jugadores", "Players"), ("espacio_trabajo", "Workspace"), ("luz", "Lighting"),
   ("sonido", "SoundService"), ("replicacion", "ReplicatedStorage"),
   ("servidor_script", "ServerScriptService"), ("servidor_almacen", "ServerStorage"),
   ("servicio_almacen_inicio", "StarterGui"), ("servicio_sonido", "SoundService"),
   ("servicio_chat", "Chat"), ("servicio_datos", "DataStoreService"),
   ("servicio_ejecucion", "RunService"), ("servicio_http", "HttpService"),
   ("servicio_localizacion", "LocalizationService"), ("servicio_prueba", "TestService"),
   ("servicio_terminales", "Teams"), ("servicio_basura", "Debris"),
   ("tienda_datos", "DataStoreService"), ("servicio_tween", "TweenService"),
   ("servicio_mensajes", "MessagingService"), ("servicio_teletransporte", "TeleportService"),
   ("servicio_gui", "GuiService"), ("servicio_entrada", "UserInputService"),
   ("servicio_context", "ContextActionService"), ("servicio_fisica", "PhysicsService"),
   ("servicio_carga", "ContentProvider"), ("UserInputService", "UserInputService"),
   ("ContextActionService", "ContextActionService")]

/-- Enumerations. -/
def enumFamilies : List (String × String) :=
  [("estilo_suavizado", "Enum.EasingStyle"), ("direccion_suavizado", "Enum.EasingDirection"),
   ("eje", "Enum.Axis"), ("tipo_normal", "Enum.NormalId"), ("forma_material", "Enum.FormFactor"),
   ("tipo_parte", "Enum.PartType"), ("material", "Enum.Material"), ("forma", "Enum.Shape"),
   ("superficie_tipo", "Enum.SurfaceType"), ("fuente", "Enum.Font"),
   ("tamano_fuente", "Enum.FontSize"), ("tipo_cuerpo", "Enum.BodyPartType"),
   ("tipo_estado_humanoide", "Enum.HumanoidStateType"),
   ("tipo_animacion", "Enum.AnimationPriority"), ("tipo_interpolacion", "Enum.InterpolationStyle"),
   ("direccion_interpolacion", "Enum.InterpolationDirection"), ("tipo_mensaje", "Enum.MessageType"),
   ("tipo_entrada", "Enum.UserInputType"), ("estado_entrada", "Enum.UserInputState"),
   ("tipo_gesto", "Enum.PlayerGestureType"), ("tipo_animacion_r", "Enum.AnimationStatus"),
   ("tipo_camara", "Enum.CameraType"), ("modo_camara", "Enum.CameraMode"),
   ("tipo_foco", "Enum.FocusType")]

/-- Items of enumerations, each behind its enumeration. -/
def enumMembers : List (String × String) :=
  [("estilo_suavizado.Linear", "Linear"), ("estilo_suavizado.Sine", "Sine"),
   ("estilo_suavizado.Back", "Back"), ("estilo_suavizado.Quad", "Quad"),
   ("estilo_suavizado.Quart", "Quart"), ("estilo_suavizado.Quint", "Quint"),
   ("estilo_suavizado.Expo", "Expo"), ("estilo_suavizado.Circular", "Circular"),
   ("estilo_suavizado.Elastic", "Elastic"), ("estilo_suavizado.Bounce", "Bounce"),
   ("direccion_suavizado.In", "In"), ("direccion_suavizado.Out", "Out"),
   ("direccion_suavizado.InOut", "InOut"), ("tipo_parte.Ball", "Ball"),
   ("tipo_parte.Block", "Block"), ("tipo_parte.Cylinder", "Cylinder"),
   ("superficie_tipo.Smooth", "Smooth"), ("superficie_tipo.Glue", "Glue"),
   ("fuente.Legacy", "Legacy"), ("fuente.SourceSans", "SourceSans"),
   ("fuente.SourceSansBold", "SourceSansBold"), ("fuente.SourceSansLight", "SourceSansLight"),
   ("fuente.SourceSansItalic", "SourceSansItalic"),
   ("fuente.SourceSansBoldItalic", "SourceSansBoldItalic"), ("fuente.Roboto", "Roboto"),
   ("fuente.RobotoMono", "RobotoMono"), ("tipo_estado_humanoide.Running", "Running"),
   ("tipo_estado_humanoide.Jumping", "Jumping"), ("tipo_estado_humanoide.Freefall", "Freefall"),
   ("tipo_estado_humanoide.Landed", "Landed"), ("tipo_estado_humanoide.Swimming", "Swimming"),
   ("tipo_estado_humanoide.Sitting", "Sitting"),
   ("tipo_estado_humanoide.PlatformStanding", "PlatformStanding"),
   ("tipo_estado_humanoide.Dead", "Dead"), ("tipo_entrada.MouseButton1", "MouseButton1"),
   ("tipo_entrada.MouseButton2", "MouseButton2"), ("tipo_entrada.MouseButton3", "MouseButton3"),
   ("tipo_entrada.Keyboard", "Keyboard"), ("tipo_entrada.Touch", "Touch"),
   ("estado_entrada.Begin", "Begin"), ("estado_entrada.Change", "Change"),
   ("estado_entrada.End", "End"), ("estado_entrada.Cancel", "Cancel")]

/-- Items of enumerations that stand alone. -/
def enumConstants : List (String × String) :=
  [("material_plastico", "Enum.Material.Plastic"), ("metal", "Enum.Material.Metal"),
   ("madera", "Enum.Material.Wood"), ("cristal", "Enum.Material.Glass"),
   ("neon", "Enum.Material.Neon")]

/-- Rules of one category without a bound on arguments. -/
def plain (category : Category) (pairs : List (String × String)) : List Rule :=
  pairs.map fun (source, target) => { category, source, target }

end SpanishLua.Rule.Defaults

namespace SpanishLua

open Rule.Defaults in
/-- The table of the default rules. -/
def RuleTable.default : RuleTable where
  entries :=
    plain .keyword keywords ++ plain .globalFunction globalFunctions ++
      plain .methodName methods ++ plain .propertyName properties ++
      plain .mathFunction mathFunctions ++ plain .serviceName services ++
      plain .enumFamily enumFamilies ++ plain .enumMember enumMembers ++
      plain .enumConstant enumConstants ++
      constructors.map fun (source, target, maxArity) =>
        { category := .constructorName, source, target, maxArity }

end SpanishLua
