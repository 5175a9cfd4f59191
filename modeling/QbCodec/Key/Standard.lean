import QbCodec.Key.Registry

namespace QbCodec.Registry

def standardNames : List String := [
  "GetTrueElapsedTime", "starttime", "elapsedtime", "text", "GetTrueStartTime", "finalprintf",
  "print_loading_time", "a", "t", "current_song_qpak", "jamsession", "SAP_Play", "SongAudioPlay",
  "quickplay_whammy_rewind_enable", "quickplay_whammy_rewind", "SpawnScript", "change",
  "song_is_waiting_to_start", "printf", "ScriptAssert", "wait", "seconds", "frames", "gameframes",
  "KillSpawnedScript", "name", "params", "id", "RunScriptOnScreenElement", "SetScreenElementProps",
  "GetGlobalTags", "SetGlobalTags", "CreateScreenElement", "DestroyScreenElement", "type",
  "parent", "pos", "dims", "rgba", "alpha", "scale", "z_priority", "just", "font",
  "ContainerElement", "SpriteElement", "TextElement", "TextBlockElement", "WindowElement", "VMenu",
  "HMenu", "root_window", "player", "part", "song", "difficulty", "guitar", "bass", "drum",
  "vocals", "band", "controller", "device_num", "current_song", "current_difficulty",
  "current_level", "current_band", "gh3_songlist", "career", "PlaySound", "StopSound", "sound",
  "volume", "pitch", "vol", "pan", "GetArraySize", "array_size", "size", "index", "element",
  "array", "struct", "i", "Obj_GetID", "Obj_SwitchScript", "Obj_SpawnScriptNow",
  "Obj_KillSpawnedScript", "IsTrue", "IsWinPort", "GotParam", "GetSingleTag", "SetTags", "GetTags",
  "LaunchEvent", "Event_Handlers", "ui_event", "ui_event_wait", "ui_destroy_menu", "CastToInteger",
  "CastToFloat", "FormatText", "TextName", "checksumname", "StringId", "StringEquals", "animation",
  "anim", "anim_name", "blend_duration", "cycle", "no_restart", "skater", "Trick", "TrickName",
  "score", "pad_choose", "pad_back", "pad_up", "pad_down", "pad_left", "pad_right", "band_member",
  "guitarist", "bassist", "drummer", "vocalist", "true", "false", "on", "off", "enabled",
  "disabled", "none", "default_value", "value", "Random", "RandomRange", "Print",
  "output_log_text", "spawnscriptnow", "main", "start_game", "load_pak", "unload_pak", "pakname",
  "heap", "file", "filename"]

def standard : Registry := empty.addAll standardNames

end QbCodec.Registry
